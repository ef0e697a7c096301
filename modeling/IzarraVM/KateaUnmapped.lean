import IzarraVM.KateaMoves
import IzarraVM.KateaSeeds
import IzarraVM.SectorStoreRefines

/-! The index of unmapped sectors is exact in every state of a session. -/
namespace IzarraVM.Katea

abbrev HeldSets := AList fun _ : ℕ => List ℕ

def HeldSets.count (index : HeldSets) : ℕ := (index.entries.map fun e => e.2.length).sum

structure HeldSets.Exact (P : ℕ → ℕ → Prop) (index : HeldSets) (total : ℕ) : Prop where
  total_eq : total = index.count
  members : ∀ c held, index.lookup c = some held → held ≠ [] ∧ held.Nodup ∧ ∀ lba ∈ held, P c lba

namespace HeldSets

variable {P Q : ℕ → ℕ → Prop} {index : HeldSets} {total c lba : ℕ} {held rest : List ℕ}

theorem count_erase (index : HeldSets) (c : ℕ) :
    count (index.erase c)+((index.lookup c).getD []).length = index.count := by
  change ((index.entries.kerase c).map fun e => e.2.length).sum+
    ((index.entries.dlookup c).getD []).length = (index.entries.map fun e => e.2.length).sum
  induction index.entries with
  | nil => rfl
  | cons e entries ih =>
    by_cases hc : c = e.1
    · rw [List.kerase_cons_eq hc, List.map_cons, List.sum_cons]
      subst hc
      rw [List.dlookup_cons_eq]
      exact Nat.add_comm _ _
    · rw [List.kerase_cons_ne hc, List.dlookup_cons_ne _ _ hc, List.map_cons, List.map_cons,
        List.sum_cons, List.sum_cons, ← ih]
      exact Nat.add_assoc _ _ _

theorem Exact.mono (h : index.Exact P total) (hP : ∀ c lba, P c lba → Q c lba) :
    index.Exact Q total where
  total_eq := h.total_eq
  members c held hc :=
    let ⟨hne, hnodup, hmem⟩ := h.members c held hc
    ⟨hne, hnodup, fun lba hlba => hP c lba (hmem lba hlba)⟩

/-- One cluster gets a new set, which is dropped when it is empty. -/
theorem Exact.put (h : index.Exact P total) (hnodup : rest.Nodup) (hrest : ∀ l ∈ rest, Q c l)
    (hother : ∀ c' l, c' ≠ c → P c' l → Q c' l) :
    Exact Q (if rest = [] then index.erase c else index.insert c rest)
      (count (index.erase c)+rest.length) := by
  have hbut {c' : ℕ} (hne : c' ≠ c) {held : List ℕ} (hc' : index.lookup c' = some held) :
      held ≠ [] ∧ held.Nodup ∧ ∀ l ∈ held, Q c' l :=
    let ⟨hfull, hnodup, hmem⟩ := h.members c' held hc'
    ⟨hfull, hnodup, fun l hl => hother c' l hne (hmem l hl)⟩
  split_ifs with hempty
  · refine ⟨by rw [hempty]; rfl, fun c' held hc' => ?_⟩
    obtain ⟨hne, hc'⟩ := lookup_erase_some hc'
    exact hbut hne hc'
  · refine ⟨Nat.add_comm _ _, fun c' held hc' => ?_⟩
    rcases lookup_insert_some hc' with ⟨rfl, rfl⟩ | ⟨hne, hc'⟩
    · exact ⟨hempty, hnodup, hrest⟩
    · exact hbut hne hc'

theorem Exact.getD (h : index.Exact P total) (c : ℕ) :
    ((index.lookup c).getD []).Nodup ∧ ∀ l ∈ (index.lookup c).getD [], P c l := by
  cases hc : index.lookup c with
  | none => exact ⟨List.nodup_nil, fun _ hl => absurd hl List.not_mem_nil⟩
  | some held => exact (h.members c held hc).2

theorem Exact.hold (h : index.Exact P total) (hP : P c lba)
    (hnew : lba ∉ (index.lookup c).getD []) :
    Exact P (index.insert c (lba :: (index.lookup c).getD [])) (total+1) := by
  obtain ⟨hnodup, hmem⟩ := h.getD c
  have hput := h.put (hnodup.cons hnew) (List.forall_mem_cons.mpr ⟨hP, hmem⟩)
    fun _ _ _ hother => hother
  rw [if_neg (List.cons_ne_nil _ _), List.length_cons, ← Nat.add_assoc, count_erase,
    ← h.total_eq] at hput
  exact hput

theorem Exact.forget (h : index.Exact P total) (hc : index.lookup c = some held) (lba : ℕ) :
    Exact (fun c' l => P c' l ∧ (c' = c → l ≠ lba))
      (if held.erase lba = [] then index.erase c else index.insert c (held.erase lba))
      (if lba ∈ held then total-1 else total) := by
  obtain ⟨-, hnodup, hmem⟩ := h.members c held hc
  have hrest (l : ℕ) (hl : l ∈ held.erase lba) : P c l ∧ (c = c → l ≠ lba) := by
    obtain ⟨hne, hl⟩ := hnodup.mem_erase_iff.mp hl
    exact ⟨hmem l hl, fun _ => hne⟩
  have hput := h.put (Q := fun c' l => P c' l ∧ (c' = c → l ≠ lba)) (hnodup.erase lba) hrest
    fun c' l hne hl => ⟨hl, fun heq => absurd heq hne⟩
  have hcount := count_erase index c
  rw [hc, Option.getD_some, ← h.total_eq] at hcount
  have hlength : count (index.erase c)+(held.erase lba).length =
      if lba ∈ held then total-1 else total := by
    split_ifs with hlba
    · have hpos := List.length_pos_of_mem hlba
      rw [List.length_erase_of_mem hlba]
      omega
    · rw [List.erase_of_not_mem hlba, hcount]
  rwa [hlength] at hput

end HeldSets

namespace Facade

open SectorStore

structure Tracks (f : Facade) (m : Lba → Option Sector) : Prop where
  store : Represents f.store m
  index : HeldSets.Exact (fun c lba => (m lba).isSome = true ∧ f.dataClusterOf lba = some c)
    f.unmappedByCluster f.unmappedSectors

variable {f f' : Facade} {m : Lba → Option Sector} {lba : ℕ}

def shelf (f : Facade) := (f.geo, f.store, f.unmappedByCluster, f.unmappedSectors)

theorem Tracks.of_shelf (h : f.Tracks m) (hshelf : f'.shelf = f.shelf) : f'.Tracks m := by
  simp only [shelf, Prod.mk.injEq] at hshelf
  obtain ⟨hgeo, hstore, hindex, htotal⟩ := hshelf
  have hcluster : f'.dataClusterOf = f.dataClusterOf := by
    unfold dataClusterOf
    rw [hgeo]
  exact ⟨hstore ▸ h.store, by rw [hindex, htotal, hcluster]; exact h.index⟩

theorem Tracks.noteUnmapped (h : f.Tracks m) (hm : (m lba).isSome = true) :
    (f.noteUnmapped lba).Tracks m := by
  unfold Facade.noteUnmapped
  split
  · exact h
  · next cluster hcluster =>
    dsimp only
    split_ifs with hheld
    · exact h
    · exact ⟨h.store, h.index.hold ⟨hm, hcluster⟩ hheld⟩

theorem Tracks.acknowledge (h : f.Tracks m) (lba : ℕ) :
    (f.acknowledge lba).Tracks (Function.update m lba none) := by
  have hstore := acknowledge_represents h.store lba
  have hother {l : ℕ} (hl : (m l).isSome = true) (hne : l ≠ lba) :
      (Function.update m lba none l).isSome = true := by rwa [Function.update_of_ne hne]
  -- a sector that the index keeps is not the acknowledged one: that one has another cluster
  unfold Facade.acknowledge forgetUnmapped
  split
  · next hnone =>
    refine ⟨hstore, h.index.mono fun c l ⟨hl, hc⟩ => ⟨hother hl ?_, hc⟩⟩
    rintro rfl
    cases hnone.symm.trans hc
  · next cluster hcluster =>
    have hcluster : f.dataClusterOf lba = some cluster := hcluster
    split
    · next hnone =>
      refine ⟨hstore, h.index.total_eq, fun c held hc => ?_⟩
      obtain ⟨hne, hnodup, hmem⟩ := h.index.members c held hc
      refine ⟨hne, hnodup, fun l hl => ⟨hother (hmem l hl).1 ?_, (hmem l hl).2⟩⟩
      rintro rfl
      cases hcluster.symm.trans (hmem l hl).2
      cases hnone.symm.trans hc
    · next held hheld =>
      refine ⟨hstore, (h.index.forget hheld lba).mono fun c l ⟨⟨hl, hc⟩, hne⟩ =>
        ⟨hother hl ?_, hc⟩⟩
      rintro rfl
      exact hne (Option.some.inj (hc.symm.trans hcluster)) rfl

theorem Tracks.writeSector (h : f.Tracks m) (lba : ℕ) (data : Sector) (faults : ℕ → SpillFaults) :
    (f.writeSector lba data faults).Tracks (Function.update m lba (some data)) := by
  have hmeta : (f.noteMetadataWrite lba).2.Tracks m := by
    obtain ⟨dirty, clusters, heq⟩ := f.noteMetadataWrite_eq lba
    rw [heq]
    exact h.of_shelf rfl
  have hstored : ({ (f.noteMetadataWrite lba).2 with
      store := (f.noteMetadataWrite lba).2.store.insert lba data faults
      batchLbas := (f.noteMetadataWrite lba).2.batchLbas.insert lba } : Facade).Tracks
        (Function.update m lba (some data)) := by
    refine ⟨(insert_represents hmeta.store lba data faults).1, hmeta.index.mono ?_⟩
    rintro c l ⟨hl, hc⟩
    refine ⟨?_, hc⟩
    by_cases heq : l = lba
    · rw [heq, Function.update_self]
      rfl
    · rwa [Function.update_of_ne heq]
  unfold Facade.writeSector
  dsimp only
  split_ifs
  · refine hstored.noteUnmapped ?_
    rw [Function.update_self]
    rfl
  · exact hstored

theorem claimCluster_shelf (key : Key) (p : Facade × Bool) (e : ℕ × ℕ) :
    (claimCluster key p e).1.shelf = p.1.shelf := by
  have hprojectable (g : Facade) (c : ℕ) : (g.noteProjectable c).shelf = g.shelf := by
    unfold noteProjectable
    split_ifs <;> rfl
  unfold claimCluster
  dsimp only
  split
  · exact hprojectable _ _
  · split_ifs
    · exact hprojectable _ _
    · rw [hprojectable]
      unfold displace
      split <;> rfl

theorem installProjection_shelf (key : Key) (path : PathBuf) (size : ℕ) (chain : List ℕ)
    (extended : Bool) : (f.installProjection key path size chain extended).shelf = f.shelf := by
  have hclaims (g : Facade) :
      (chain.zipIdx.foldl (claimCluster key) (g, true)).1.shelf = g.shelf :=
    List.foldlRecOn (motive := fun p : Facade × Bool => p.1.shelf = g.shelf) _ _ rfl
      fun p hp e _ => (claimCluster_shelf key p e).trans hp
  refine (hclaims _).trans ?_
  dsimp only
  cases f.projectedFiles.lookup key <;> rfl

/-- Every move keeps the index exact. -/
theorem Moves.tracks (h : f.Moves f') (hf : ∃ m, f.Tracks m) : ∃ m, f'.Tracks m := by
  obtain ⟨m, hm⟩ := hf
  cases h with
  | same hcore =>
    refine ⟨m, hm.of_shelf ?_⟩
    simp only [core, Prod.mk.injEq] at hcore
    simp only [shelf, Prod.mk.injEq]
    exact ⟨hcore.1, hcore.2.1, hcore.2.2.1, hcore.2.2.2.1⟩
  | write lba data faults => exact ⟨_, hm.writeSector lba data faults⟩
  | hold hpending => exact ⟨m, hm.noteUnmapped (hm.store.pending _ (by simp) ▸ hpending)⟩
  | acknowledge lba => exact ⟨_, hm.acknowledge lba⟩
  | install key path size chain extended =>
    exact ⟨m, hm.of_shelf (installProjection_shelf key path size chain extended)⟩
  | remove key =>
    refine ⟨m, hm.of_shelf ?_⟩
    unfold removeProjection
    dsimp only
    split <;> rfl

end Facade

def Facade.UnmappedExact (f : Facade) : Prop :=
  HeldSets.Exact (fun c lba => f.store.isPending lba = true ∧ f.dataClusterOf lba = some c)
    f.unmappedByCluster f.unmappedSectors

/-- The index of unmapped sectors is exact in every state of a session on a mounted folder. -/
theorem session_unmapped_exact {m : Mount} {fuel : ℕ} {f : Facade} (plan : Plan) (host : Host)
    (events : List Event) (hmount : m.mount fuel = some (.ok f)) :
    (session plan (start f host) events).world.facade.UnmappedExact := by
  have hstart : ∃ s, (start f host).world.facade.Tracks s := by
    obtain ⟨root, geo, -, rfl⟩ := Mount.mount_ok hmount
    exact ⟨_, SectorStore.withCapacity_represents _, rfl, fun _ _ hc => by cases hc⟩
  obtain ⟨s, hs⟩ := session_keeps (fun _ _ => Facade.Moves.tracks) events hstart
  refine hs.index.mono fun c lba hlba => ⟨?_, hlba.2⟩
  rw [hs.store.pending lba (by simp)]
  exact hlba.1

def writeFree : Event :=
  .writeSector (emptyFacade.clusterToLba 3 0) zeroSector fun _ => ⟨none, none, none⟩

theorem emptySession_unmapped : (emptySession [writeFree]).world.facade.unmappedSectors = 1 ∧
    (emptySession [writeFree]).world.facade.UnmappedExact :=
  ⟨by decide +kernel, session_unmapped_exact .calm emptyHost _ emptyFolder_mount⟩

end IzarraVM.Katea
