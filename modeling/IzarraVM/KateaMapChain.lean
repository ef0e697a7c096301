import IzarraVM.KateaSeeds

/-! The chain doorbell: the volume walks a FAT chain for the guest, as the guest would. -/
namespace IzarraVM

namespace Walk

variable {σ : Type*} (next : σ → σ) (Links Ends : σ → Prop) (start : σ) (steps : ℕ)

def Lands (c : σ) : Prop := (∀ i < steps, Links (next^[i] start)) ∧ next^[steps] start = c

def EndsBefore : Prop := ∃ i < steps, (∀ j < i, Links (next^[j] start)) ∧ Ends (next^[i] start)

theorem lands_succ (c : σ) : Lands next Links start (steps+1) c ↔
    Links start ∧ Lands next Links (next start) steps c := by
  simp only [Lands, Nat.forall_lt_succ_left, Function.iterate_succ_apply, Function.iterate_zero,
    id_eq, and_assoc]

theorem endsBefore_succ : EndsBefore next Links Ends start (steps+1) ↔
    Ends start ∨ Links start ∧ EndsBefore next Links Ends (next start) steps := by
  simp only [EndsBefore, Nat.exists_lt_succ_left, Nat.forall_lt_succ_left, Nat.not_lt_zero,
    false_implies, implies_true, true_and, Function.iterate_succ_apply, Function.iterate_zero,
    id_eq, and_assoc]
  constructor
  · rintro (hends | ⟨i, hi, hlink, hrest⟩)
    · exact .inl hends
    · exact .inr ⟨hlink, i, hi, hrest⟩
  · rintro (hends | ⟨hlink, i, hi, hrest⟩)
    · exact .inl hends
    · exact .inr ⟨i, hi, hlink, hrest⟩

end Walk

namespace Katea

inductive ChainMapOutcome where
  | cluster (c : ℕ)
  | endBeforeTarget
  | refused
deriving DecidableEq

namespace Facade

section Map

variable {m : Type → Type} [Monad m] (get : ℕ → m (Option Sector)) (f : Facade) (host : HostFiles)

def mapSteps : ℕ → ℕ → FatWalk → m ChainMapOutcome
  | 0, cluster, _ => pure (.cluster cluster)
  | steps+1, cluster, walk => do
    let (entry, walk) ← fatEntryWalked get f host cluster walk
    if ¬ (2 ≤ entry ∧ entry < 0x0FFFFFF7) then pure .endBeforeTarget
    else if ¬ f.clusterInRange entry then pure .refused
    else mapSteps steps entry walk

def mapChain (start steps : ℕ) : m ChainMapOutcome :=
  if ¬ f.clusterInRange start ∨ f.maxChain < steps then pure .refused
  else mapSteps get f host steps start none

end Map

section Guest

variable (f : Facade) (host : HostFiles)

def guestEntry (c : ℕ) : ℕ := entryIn (f.readSector host (f.fatLba c)) c

def EndsAt (c : ℕ) : Prop :=
  let entry := f.guestEntry host c
  entry = 0 ∨ entry = 1 ∨ entry = 0x0FFFFFF7 ∨ 0x0FFFFFF8 ≤ entry

def LinksAt (c : ℕ) : Prop := ¬ f.EndsAt host c ∧ f.clusterInRange (f.guestEntry host c) = true

def Lands (start steps c : ℕ) : Prop :=
  Walk.Lands (f.guestEntry host) (f.LinksAt host) start steps c

def EndsBefore (start steps : ℕ) : Prop :=
  Walk.EndsBefore (f.guestEntry host) (f.LinksAt host) (f.EndsAt host) start steps

end Guest

variable {f : Facade} {host : HostFiles}

theorem entryIn_fatSector (index : ClusterIndex) (c : ℕ) :
    entryIn (index.fatSector (c*4/sectorBytes)) c = index.fatEntry c%2^28 := by
  have hbytes : le32At (index.fatSector (c*4/sectorBytes)) (c*4%sectorBytes) =
      le32At (putBytes (fun _ : Fin 4 => 0) 0 (leBytes 4 (index.fatEntry c%2^28))) 0 := by
    refine leAt_congr 4 fun i hi => ?_
    have hentry : c*4/512*128+(c*4%512+i)/4 = c := by omega
    have hlow : (c*4%512+i)%4 = 0+i := by omega
    have hlt : c*4%512+i < 512 := by omega
    show byteAt (index.fatSector (c*4/512)) (c*4%512+i) = _
    rw [byteAt, dif_pos hlt, ClusterIndex.fatSector]
    simp only [hentry, hlow]
  rw [entryIn, hbytes, le32At, leAt_putBytes _ _ _ (by omega)]
  generalize index.fatEntry c = x
  omega

/-- Copy 0 of the FAT, where the guest has not written, is the computed one. -/
theorem baseSector_fat {c : ℕ} (hc : c*4/sectorBytes < f.geo.fatsz) :
    entryIn (f.baseSector host (f.fatLba c)).bytes c = f.fat.fatEntry c%2^28 := by
  have hrel : f.fatLba c-f.geo.partStart = reservedSectors+c*4/sectorBytes :=
    Nat.add_sub_cancel_left _ _
  have hmod : (reservedSectors+c*4/sectorBytes-reservedSectors)%f.geo.fatsz = c*4/sectorBytes := by
    rw [Nat.add_sub_cancel_left, Nat.mod_eq_of_lt hc]
  have hpos : f.geo.partStart+32 ≤ f.fatLba c := by
    unfold fatLba
    simp only [reservedSectors]
    omega
  have hbase : f.baseSector host (f.fatLba c) = ⟨f.fat.fatSector (c*4/sectorBytes), false⟩ := by
    unfold KateaTreeVolume.baseSector
    rw [hrel]
    simp only [reservedSectors, numFats, backupBootSector, fsinfoSector, backupFsinfoSector]
      at hmod ⊢
    rw [if_neg (by omega), if_neg (by omega), if_neg (by omega), if_neg (by omega),
      if_pos (by omega), hmod]
  rw [hbase]
  exact entryIn_fatSector _ c

/-- What the store answers is what `read_sector` serves, failed reads included. -/
theorem readSector_eq (lba : ℕ) :
    f.readSector host lba = (f.stored lba).run.getD (f.baseSector host lba).bytes := by
  unfold KateaTreeVolume.readSector KateaTreeVolume.readSectorChecked stored
  rcases hget : f.store.get lba none with ⟨_ | _ | sector, store⟩ <;> rfl

theorem fatEntry_stored (c : ℕ) : fatEntry f.stored f host c = f.guestEntry host c := by
  have hsector (lba : ℕ) : sectorAt f.stored f host lba = f.readSector host lba := by
    rw [readSector_eq]
    unfold sectorAt
    rcases f.stored lba with _ | sector <;> rfl
  exact congrArg (entryIn · c) (hsector _)

/-- In FAT copy 0 the entry is that of the sector the guest wrote, or else the computed one. -/
theorem guestEntry_eq {c : ℕ} (hc : c*4/sectorBytes < f.geo.fatsz) : f.guestEntry host c =
    ((f.stored (f.fatLba c)).run.map (entryIn · c)).getD (f.fat.fatEntry c%2^28) := by
  rw [guestEntry, readSector_eq]
  rcases (f.stored (f.fatLba c)).run with _ | sector
  · rw [Option.getD_none, Option.map_none, Option.getD_none]
    exact baseSector_fat hc
  · rw [Option.getD_some, Option.map_some, Option.getD_some]

def CursorTrue (f : Facade) (walk : FatWalk) : Prop :=
  ∀ within overlay, walk = some (within, overlay) →
    overlay = f.stored (f.geo.partStart+(reservedSectors+within))

/-- Through a cursor the walk reads the guest's entry, and the cursor stays true. -/
theorem fatEntryWalked_stored (host : HostFiles) (c : ℕ) {walk : FatWalk} (h : f.CursorTrue walk) :
    ∃ walk', fatEntryWalked f.stored f host c walk = (f.guestEntry host c, walk') ∧
      f.CursorTrue walk' := by
  unfold fatEntryWalked
  dsimp only
  split_ifs with hout
  · exact ⟨walk, congrArg (·, walk) (fatEntry_stored c), h⟩
  · have hc : c*4/sectorBytes < f.geo.fatsz := Nat.lt_of_not_le hout
    have hread : f.CursorTrue (some (c*4/sectorBytes, f.stored (f.fatLba c))) := by
      rintro within overlay ⟨⟩
      rfl
    refine ⟨_, ?_, hread⟩
    rw [guestEntry_eq hc]
    split
    · next within overlay hkept =>
      obtain ⟨hwalk, hin⟩ := Option.filter_eq_some_iff.mp hkept
      obtain rfl : within = c*4/sectorBytes := of_decide_eq_true hin
      obtain rfl := h _ _ hwalk
      rfl
    · rfl

theorem endsAt_iff (c : ℕ) : f.EndsAt host c ↔
    ¬ (2 ≤ f.guestEntry host c ∧ f.guestEntry host c < 0x0FFFFFF7) := by
  unfold EndsAt
  generalize f.guestEntry host c = entry
  dsimp only
  omega

/-- One turn of the loop, once its entry was read. -/
theorem mapSteps_succ (steps : ℕ) {cluster entry : ℕ} {walk walk' : FatWalk}
    (h : fatEntryWalked f.stored f host cluster walk = (entry, walk')) :
    mapSteps f.stored f host (steps+1) cluster walk =
      if ¬ (2 ≤ entry ∧ entry < 0x0FFFFFF7) then .endBeforeTarget
      else if ¬ f.clusterInRange entry then .refused
      else mapSteps f.stored f host steps entry walk' := by
  rw [mapSteps, h]
  rfl

/-- The loop of the doorbell against the guest's walk, by induction on the steps. -/
theorem mapSteps_stored (steps start : ℕ) {walk : FatWalk} (h : f.CursorTrue walk) :
    (∀ c, mapSteps f.stored f host steps start walk = .cluster c ↔ f.Lands host start steps c) ∧
      (mapSteps f.stored f host steps start walk = .endBeforeTarget ↔
        f.EndsBefore host start steps) := by
  induction steps generalizing start walk with
  | zero =>
    constructor
    · intro c
      exact ⟨fun hc => ⟨fun i hi => absurd hi i.not_lt_zero, ChainMapOutcome.cluster.inj hc⟩,
        fun hc => congrArg ChainMapOutcome.cluster hc.2⟩
    · exact ⟨nofun, fun ⟨i, hi, _⟩ => absurd hi i.not_lt_zero⟩
  | succ steps ih =>
    obtain ⟨walk', hentry, hwalk⟩ := fatEntryWalked_stored host start h
    have hturn := mapSteps_succ steps hentry
    unfold Lands EndsBefore
    simp only [Walk.lands_succ, Walk.endsBefore_succ]
    by_cases hends : f.EndsAt host start
    · rw [if_pos ((endsAt_iff start).mp hends)] at hturn
      rw [hturn]
      exact ⟨fun c => iff_of_false nofun fun hlands => hlands.1.1 hends, iff_of_true rfl (.inl hends)⟩
    · rw [if_neg fun hentry => hends ((endsAt_iff start).mpr hentry)] at hturn
      by_cases hin : f.clusterInRange (f.guestEntry host start) = true
      · have hlink : f.LinksAt host start := ⟨hends, hin⟩
        rw [if_neg (not_not_intro hin)] at hturn
        obtain ⟨hlands, hstops⟩ := ih (f.guestEntry host start) hwalk
        rw [hturn]
        exact ⟨fun c => (hlands c).trans (and_iff_right hlink).symm,
          hstops.trans ((or_iff_right hends).trans (and_iff_right hlink)).symm⟩
      · have hlink : ¬ f.LinksAt host start := fun hlink => hin hlink.2
        rw [if_pos hin] at hturn
        rw [hturn]
        exact ⟨fun c => iff_of_false nofun fun hlands => hlink hlands.1,
          iff_of_false nofun (not_or_intro hends fun hstops => hlink hstops.1)⟩

theorem gives_mapSteps {get : ℕ → Reading (Option Sector)} {view : ℕ → Id (Option Sector)}
    (hget : ∀ lba, (get lba).Gives (view lba)) (steps cluster : ℕ) (walk : FatWalk) :
    (mapSteps get f host steps cluster walk).Gives (mapSteps view f host steps cluster walk) := by
  induction steps generalizing cluster walk with
  | zero => exact Reading.gives_pure _
  | succ steps ih =>
    refine (gives_fatEntryWalked hget cluster walk).seq fun p => ?_
    dsimp only
    split_ifs
    · exact ih _ _
    · exact Reading.gives_pure _
    · exact Reading.gives_pure _

end Facade

open Facade in
/-- In every state of the volume, and when no read of the doorbell fails: what it answers, from a
cluster of the data region and within the chain limit, is where the guest's own walk goes. -/
theorem mapChain_follows_guest (f : Facade) (host : HostFiles) (faults : ℕ → Option String)
    (t : Tally) {start steps : ℕ} (hstart : f.clusterInRange start = true)
    (hsteps : steps ≤ f.maxChain)
    (hclean : ((mapChain (f.overlayRead faults) f host start steps).run t).2.errors = t.errors) :
    let outcome := ((mapChain (f.overlayRead faults) f host start steps).run t).1
    (∀ c, outcome = .cluster c ↔ f.Lands host start steps c) ∧
      (outcome = .endBeforeTarget ↔ f.EndsBefore host start steps) := by
  intro outcome
  have hrun : ¬ (¬ f.clusterInRange start ∨ f.maxChain < steps) := by
    rintro (hout | hlong)
    · exact hout hstart
    · exact Nat.not_lt_of_le hsteps hlong
  have hloop : outcome = mapSteps f.stored f host steps start none := by
    have hmap : mapChain (f.overlayRead faults) f host start steps =
        mapSteps (f.overlayRead faults) f host steps start none := if_neg hrun
    rw [hmap] at hclean
    exact (congrArg (fun r => (r.run t).1) hmap).trans
      (gives_mapSteps (f.gives_overlayRead faults) steps start none t hclean)
  rw [hloop]
  exact mapSteps_stored steps start nofun

def Event.linkOn : Event :=
  .writeSector 2080 (fun i => if i.val = 12 then 4 else 0) fun _ => ⟨none, none, none⟩

theorem linkOn_followed :
    let f := (emptySession [.linkOn]).world.facade
    let walk := (Facade.mapChain (f.overlayRead fun _ => none) f (fun _ => none) 3 1).run ⟨0, 0⟩
    f.clusterInRange 3 = true ∧ 1 ≤ f.maxChain ∧ walk.2.errors = 0 ∧ walk.1 = .cluster 4 ∧
      f.Lands (fun _ => none) 3 1 4 := by
  intro f walk
  have hstart : f.clusterInRange 3 = true := by decide +kernel
  have hsteps : 1 ≤ f.maxChain := by decide +kernel
  have hclean : walk.2.errors = 0 := by decide +kernel
  have hcluster : walk.1 = .cluster 4 := by decide +kernel
  have hfollows := mapChain_follows_guest f (fun _ => none) (fun _ => none) ⟨0, 0⟩ hstart hsteps hclean
  exact ⟨hstart, hsteps, hclean, hcluster, (hfollows.1 4).mp hcluster⟩

end Katea

end IzarraVM
