import IzarraVM.KateaMoves
import IzarraVM.KateaAliasing

/-! The projected files and the index of their clusters agree in every state of a session. -/
namespace IzarraVM.Katea

namespace Facade

/-- Of every file but one, a mapped cluster is at its place in the chain, and all clusters are
mapped as long as no other file has taken one. -/
structure MappedBut (but : Option Key) (f : Facade) : Prop where
  back : ∀ c key i, some key ≠ but → f.projectedClusters.lookup c = some (key, i) →
    ∃ file, f.projectedFiles.lookup key = some file ∧ file.chain[i]? = some c
  intact : ∀ key file i c, some key ≠ but → f.projectedFiles.lookup key = some file →
    file.mappingIntact = true → file.chain[i]? = some c →
      f.projectedClusters.lookup c = some (key, i)

abbrev Mapped (f : Facade) : Prop := f.MappedBut none

variable {f f' : Facade} {but : Option Key} {key : Key}

theorem lookup_dropped (key : Key) (chain : List ℕ) (c : ℕ) (o : Key × ℕ) :
    ∀ clusters : AList fun _ : ℕ => Key × ℕ,
      (chain.foldl (fun m c => if (m.lookup c).any fun owner => decide (owner.1 = key)
        then m.erase c else m) clusters).lookup c = some o ↔
      clusters.lookup c = some o ∧ (c ∈ chain → o.1 ≠ key) := by
  induction chain with
  | nil => simp
  | cons a rest ih =>
    intro clusters
    have hstep : (if (clusters.lookup a).any fun owner => decide (owner.1 = key)
        then clusters.erase a else clusters).lookup c = some o ↔
        clusters.lookup c = some o ∧ (c = a → o.1 ≠ key) := by
      by_cases hc : c = a
      · subst hc
        cases howner : clusters.lookup c with
        | none => simp [howner]
        | some owner =>
          by_cases hkey : owner.1 = key
          · simpa [hkey] using fun heq : owner = o => heq ▸ hkey
          · simpa [hkey, howner] using fun heq : owner = o => heq ▸ hkey
      · split_ifs
        · simp [AList.lookup_erase_ne hc, hc]
        · simp [hc]
    rw [List.foldl_cons, ih, hstep, and_assoc, List.mem_cons]
    tauto

theorem Mapped.drop (h : f.Mapped) {old : ProjectedFile}
    (hold : f.projectedFiles.lookup key = some old) : (f.dropProjected key old).Mapped := by
  constructor
  · intro c k i _ hc
    obtain ⟨hc, hkept⟩ := (lookup_dropped key old.chain c (k, i) _).mp hc
    obtain ⟨file, hfile, hchain⟩ := h.back c k i nofun hc
    have hne : k ≠ key := by
      rintro rfl
      cases hold.symm.trans hfile
      exact hkept (List.mem_of_getElem? hchain) rfl
    exact ⟨file, (AList.lookup_erase_ne hne).trans hfile, hchain⟩
  · intro k file i c _ hfile hintact hchain
    obtain ⟨hne, hfile⟩ := lookup_erase_some hfile
    exact (lookup_dropped key old.chain c (k, i) _).mpr
      ⟨h.intact k file i c nofun hfile hintact hchain, fun _ => hne⟩

/-- A claim takes the cluster, and the file that had it is not intact any more. -/
theorem claimCluster_maps (key : Key) (f : Facade) (flag : Bool) (c i : ℕ) :
    (claimCluster key (f, flag) (c, i)).1.projectedClusters =
        f.projectedClusters.insert c (key, i) ∧
      ((claimCluster key (f, flag) (c, i)).2 = true →
        flag = true ∧ ∀ j, f.projectedClusters.lookup c = some (key, j) → j = i) ∧
      ∀ k, (claimCluster key (f, flag) (c, i)).1.projectedFiles.lookup k =
        (f.projectedFiles.lookup k).map fun file =>
          if k ≠ key ∧ (f.projectedClusters.lookup c).any fun owner => decide (owner.1 = k)
          then { file with mappingIntact := false } else file := by
  have hnote (g : Facade) : (g.noteProjectable c).projectedClusters = g.projectedClusters ∧
      (g.noteProjectable c).projectedFiles = g.projectedFiles := by
    unfold noteProjectable
    split_ifs <;> exact ⟨rfl, rfl⟩
  unfold claimCluster
  dsimp only
  cases howner : f.projectedClusters.lookup c with
  | none =>
    dsimp only
    rw [(hnote _).1, (hnote _).2]
    simp
  | some owner =>
    obtain ⟨owner, old⟩ := owner
    dsimp only
    split_ifs with hkey
    · dsimp only
      rw [(hnote _).1, (hnote _).2]
      subst hkey
      refine ⟨rfl, ?_, fun k => ?_⟩
      · simp +contextual
      · have hown : ¬(k ≠ owner ∧ owner = k) := fun h => h.1 h.2.symm
        simp [hown]
    · dsimp only
      rw [(hnote _).1, (hnote _).2]
      refine ⟨?_, ?_, fun k => ?_⟩
      · unfold displace
        split <;> rfl
      · simp +contextual [hkey]
      · unfold displace
        dsimp only
        split
        · next hnone =>
          by_cases hk : owner = k
          · subst hk
            simp [hnone]
          · simp [hk]
        · next displaced hsome =>
          by_cases hk : owner = k
          · subst hk
            simp [hsome, hkey]
          · simp [hk, AList.lookup_insert_ne (Ne.symm hk)]

/-- The clusters `done` are claimed for `key`; those that are claimed twice clear the flag. -/
structure Claiming (key : Key) (done : List (ℕ × ℕ)) (p : Facade × Bool) : Prop where
  rest : p.1.MappedBut (some key)
  mine : ∀ c i, p.1.projectedClusters.lookup c = some (key, i) → (c, i) ∈ done
  whole : p.2 = true → ∀ e ∈ done, p.1.projectedClusters.lookup e.1 = some (key, e.2)

theorem Claiming.step {done : List (ℕ × ℕ)} {p : Facade × Bool} (h : Claiming key done p)
    (e : ℕ × ℕ) : Claiming key (e :: done) (claimCluster key p e) := by
  obtain ⟨f, flag⟩ := p
  obtain ⟨c, i⟩ := e
  obtain ⟨hclusters, hflag, hfiles⟩ := claimCluster_maps key f flag c i
  refine ⟨⟨?_, ?_⟩, ?_, ?_⟩
  · intro c' k j hk hc'
    have hne : k ≠ key := fun heq => hk (congrArg some heq)
    rw [hclusters] at hc'
    rcases lookup_insert_some hc' with ⟨rfl, heq⟩ | ⟨-, hc'⟩
    · exact absurd (Prod.mk.inj heq).1 hne
    · obtain ⟨file, hfile, hchain⟩ := h.rest.back c' k j hk hc'
      rw [hfiles, hfile]
      refine ⟨_, rfl, ?_⟩
      split_ifs <;> exact hchain
  · intro k file' j c' hk hfile hintact hchain
    have hne : k ≠ key := fun heq => hk (congrArg some heq)
    rw [hfiles] at hfile
    obtain ⟨file, hbefore, rfl⟩ := Option.map_eq_some_iff.mp hfile
    split_ifs at hintact hchain with hdisplaced
    have hlookup := h.rest.intact k file j c' hk hbefore hintact hchain
    -- a file that had the claimed cluster was just displaced
    have heq : c' ≠ c := by
      rintro rfl
      rw [hlookup] at hdisplaced
      exact hdisplaced ⟨hne, by simp⟩
    rw [hclusters, AList.lookup_insert_ne heq]
    exact hlookup
  · intro c' j hc'
    rw [hclusters] at hc'
    rcases lookup_insert_some hc' with ⟨rfl, heq⟩ | ⟨-, hc'⟩
    · cases heq
      exact List.mem_cons_self
    · exact List.mem_cons_of_mem _ (h.mine c' j hc')
  · intro hwhole e he
    obtain ⟨htrue, hsame⟩ := hflag hwhole
    rw [hclusters]
    by_cases heq : e.1 = c
    · rw [heq, AList.lookup_insert]
      rcases List.mem_cons.mp he with rfl | hdone
      · rfl
      · have hbefore := h.whole htrue e hdone
        rw [heq] at hbefore
        rw [hsame _ hbefore]
    · rcases List.mem_cons.mp he with rfl | hdone
      · exact absurd rfl heq
      · rw [AList.lookup_insert_ne heq]
        exact h.whole htrue e hdone

theorem Claiming.fold (l : List (ℕ × ℕ)) : ∀ {done : List (ℕ × ℕ)} {p : Facade × Bool},
    Claiming key done p → Claiming key (l.reverse ++ done) (l.foldl (claimCluster key) p) := by
  induction l with
  | nil => exact id
  | cons e l ih =>
    intro done p h
    rw [List.reverse_cons, List.append_assoc]
    exact ih (h.step e)

theorem Mapped.install (h : f.Mapped) (key : Key) (path : PathBuf) (size : ℕ) (chain : List ℕ)
    (extended : Bool) : (f.installProjection key path size chain extended).Mapped := by
  let unblocked : Facade := { f with blockedProjectionKeys := f.blockedProjectionKeys.erase key }
  have hunblocked : unblocked.Mapped := { h with }
  obtain ⟨g, hg⟩ : ∃ g, ((f.projectedFiles.lookup key).map
      (unblocked.dropProjected key)).getD unblocked = g := ⟨_, rfl⟩
  have hdropped : g.Mapped ∧ g.projectedFiles.lookup key = none := by
    rw [← hg]
    cases hold : f.projectedFiles.lookup key with
    | none => exact ⟨hunblocked, hold⟩
    | some old => exact ⟨hunblocked.drop hold, AList.lookup_erase key _⟩
  obtain ⟨hmapped, hnone⟩ := hdropped
  have hstart : Claiming key [] (g, true) := by
    refine ⟨⟨fun c k i _ => hmapped.back c k i nofun, fun k file i c _ =>
      hmapped.intact k file i c nofun⟩, fun c i hc => ?_, nofun⟩
    obtain ⟨file, hfile, -⟩ := hmapped.back c key i nofun hc
    cases hnone.symm.trans hfile
  have hclaimed := hstart.fold chain.zipIdx
  rw [List.append_nil] at hclaimed
  unfold installProjection
  dsimp only
  rw [hg]
  have hother {k : Key} (hk : k ≠ key) : some k ≠ some key := fun heq => hk (Option.some.inj heq)
  constructor
  · intro c k i _ hc
    by_cases hk : k = key
    · subst hk
      refine ⟨_, AList.lookup_insert _, ?_⟩
      exact List.mem_zipIdx_iff_getElem?.mp (List.mem_reverse.mp (hclaimed.mine c i hc))
    · obtain ⟨file, hfile, hchain⟩ := hclaimed.rest.back c k i (hother hk) hc
      exact ⟨file, (AList.lookup_insert_ne hk).trans hfile, hchain⟩
  · intro k file i c _ hfile hintact hchain
    by_cases hk : k = key
    · subst hk
      cases (AList.lookup_insert _).symm.trans hfile
      exact hclaimed.whole hintact (c, i)
        (List.mem_reverse.mpr (List.mem_zipIdx_iff_getElem?.mpr hchain))
    · exact hclaimed.rest.intact k file i c (hother hk)
        ((AList.lookup_insert_ne hk).symm.trans hfile) hintact hchain

theorem Mapped.remove (h : f.Mapped) (key : Key) : (f.removeProjection key).Mapped := by
  unfold removeProjection
  dsimp only
  split
  · exact { h with }
  · next old hold =>
    let unblocked : Facade := { f with blockedProjectionKeys := f.blockedProjectionKeys.erase key }
    have hunblocked : unblocked.Mapped := { h with }
    exact { hunblocked.drop hold with }

theorem Moves.mapped (h : f.Moves f') (hf : f.Mapped) : f'.Mapped := by
  cases h with
  | same hcore =>
    simp only [core, Prod.mk.injEq] at hcore
    obtain ⟨-, -, -, -, hfiles, hclusters⟩ := hcore
    constructor
    · rw [hfiles, hclusters]
      exact hf.back
    · rw [hfiles, hclusters]
      exact hf.intact
  | write lba data faults =>
    obtain ⟨dirty, clusters, index, total, heq⟩ := f.writeSector_eq lba data faults
    rw [heq]
    exact { hf with }
  | @hold lba _ =>
    obtain ⟨index, total, heq⟩ := f.noteUnmapped_eq lba
    rw [heq]
    exact { hf with }
  | acknowledge lba =>
    obtain ⟨index, total, heq⟩ := f.acknowledge_eq lba
    rw [heq]
    exact { hf with }
  | install key path size chain extended => exact hf.install key path size chain extended
  | remove key => exact hf.remove key

end Facade

def Facade.Dirtied (f : Facade) (file : ProjectedFile) : Prop :=
  ∃ c ∈ f.fatDirtyClusters, c ∈ file.chain

/-- From maps that agree every session goes on with maps that agree. So the refresh, which looks the
dirtied clusters up in the index and scans no chain, finds only files whose chain is dirtied,
and every such file that is intact. -/
theorem session_mapped {f : Facade} (plan : Plan) (host : Host) (events : List Event)
    (hf : f.Mapped) :
    let g := (session plan (start f host) events).world.facade
    let found := g.fatDirtyClusters.filterMap fun c => (g.projectedClusters.lookup c).map Prod.fst
    g.Mapped ∧
      (∀ key ∈ found, ∃ file, g.projectedFiles.lookup key = some file ∧ g.Dirtied file) ∧
      ∀ key file, g.projectedFiles.lookup key = some file → file.mappingIntact = true →
        g.Dirtied file → key ∈ found := by
  intro g found
  have hmapped : g.Mapped := session_keeps (fun _ _ => Facade.Moves.mapped) events hf
  refine ⟨hmapped, ?_, ?_⟩
  · intro key hkey
    obtain ⟨c, hdirty, hc⟩ := List.mem_filterMap.mp hkey
    obtain ⟨⟨key, i⟩, howner, rfl⟩ := Option.map_eq_some_iff.mp hc
    obtain ⟨file, hfile, hchain⟩ := hmapped.back c key i nofun howner
    exact ⟨file, hfile, c, hdirty, List.mem_of_getElem? hchain⟩
  · rintro key file hfile hintact ⟨c, hdirty, hc⟩
    obtain ⟨i, hi⟩ := List.mem_iff_getElem?.mp hc
    refine List.mem_filterMap.mpr ⟨c, hdirty, ?_⟩
    rw [hmapped.intact key file i c nofun hfile hintact hi]
    rfl

def Event.linkCluster : Event :=
  .writeSector 2080 (fun i => if i.val < 16 then 0xFF else 0) fun _ => ⟨none, none, none⟩

/-- A file of one cluster is written to an empty folder. -/
theorem emptySession_mapped :
    (emptySession [.linkCluster, .writeRoot [(shortName [0x41], 3)],
      .flush]).world.facade.projectedClusters.keys = [3] ∧
    (emptySession [.linkCluster, .writeRoot [(shortName [0x41], 3)], .flush]).world.facade.Mapped :=
  ⟨by decide +kernel, (session_mapped .calm emptyHost _
    ⟨fun _ _ _ _ hc => (by cases hc), fun _ _ _ _ _ hfile => (by cases hfile)⟩).1⟩

end IzarraVM.Katea
