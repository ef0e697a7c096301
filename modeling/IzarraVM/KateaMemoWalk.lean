import IzarraVM.KateaMemo

/-! What a chain walk depends on: the sectors of FAT copy 0 that it went through. -/
namespace IzarraVM.Katea

namespace Facade

section Related

variable {m n : Type → Type} [Monad m] [Monad n] {R : (α : Type) → m α → n α → Prop}
  {get : ℕ → m (Option Sector)} {get' : ℕ → n (Option Sector)} {f f' : Facade}
  {host host' : HostFiles}
  (hpure : ∀ (α : Type) (a : α), R α (pure a) (pure a))
  (hseq : ∀ (α β : Type) (x : m α) (y : n α) (next : α → m β) (next' : α → n β),
    R α x y → (∀ a, R β (next a) (next' a)) → R β (x >>= next) (y >>= next'))
  (hgeo : f'.geo = f.geo) (hfat : f'.fat = f.fat)
  (hin : ∀ c, c*4/sectorBytes < f.geo.fatsz → R _ (get (f.fatLba c)) (get' (f'.fatLba c)))
  (hout : ∀ c, f.geo.fatsz ≤ c*4/sectorBytes →
    R _ (fatEntry get f host c) (fatEntry get' f' host' c))

include hpure hseq hgeo hfat hin hout

theorem related_fatEntryWalked (c : ℕ) (walk : FatWalk) :
    R _ (fatEntryWalked get f host c walk) (fatEntryWalked get' f' host' c walk) := by
  unfold fatEntryWalked
  dsimp only
  rw [hgeo, hfat]
  split_ifs with hpast
  · exact hseq _ _ _ _ _ _ (hout c hpast) fun entry => hpure _ _
  · split
    · exact hseq _ _ _ _ _ _ (hpure _ _) fun overlay => hpure _ _
    · exact hseq _ _ _ _ _ _ (hin c (Nat.lt_of_not_le hpast)) fun overlay => hpure _ _

theorem related_chainFrom (max c : ℕ) (walk : FatWalk) :
    R _ (chainFrom get f host max c walk) (chainFrom get' f' host' max c walk) := by
  induction max generalizing c walk with
  | zero => exact hpure _ none
  | succ max ih =>
    refine hseq _ _ _ _ _ _
      (related_fatEntryWalked hpure hseq hgeo hfat hin hout c walk) fun p => ?_
    dsimp only
    split_ifs
    · exact hpure _ _
    · exact hpure _ _
    · exact hseq _ _ _ _ _ _ (ih _ _) fun _ => hpure _ _

/-- Whatever relates the reads of a walk, one sector of FAT copy 0 at a time and one entry past
it, relates the chains. -/
theorem related_chainOf (first : ℕ) :
    R _ (chainOf get f host first) (chainOf get' f' host' first) := by
  have hmax : f'.maxChain = f.maxChain := by rw [maxChain, maxChain, hgeo]
  unfold chainOf
  split_ifs
  · exact hpure _ _
  · rw [hmax]
    exact related_chainFrom hpure hseq hgeo hfat hin hout _ _ _

end Related

def fatCopy (f : Facade) (within : ℕ) : Option Sector :=
  if within < f.geo.fatsz then f.stored (f.geo.partStart+(reservedSectors+within)) else none

structure Follows (f f' : Facade) {α : Type} (walk : StateM WalkLog α) (a : α) : Prop where
  sectors : ∀ log, log.sectors ⊆ (walk.run log).2.sectors
  degraded : ∀ log, log.degraded = true → (walk.run log).2.degraded = true
  value : ∀ log, (walk.run log).2.degraded = false →
    (∀ w ∈ (walk.run log).2.sectors, f'.fatCopy w = f.fatCopy w) → (walk.run log).1 = a

variable {f f' : Facade} {α β : Type}

theorem follows_pure (a : α) : Follows f f' (pure a) a :=
  ⟨fun _ => List.Subset.refl _, fun _ h => h, fun _ _ _ => rfl⟩

theorem Follows.seq {walk : StateM WalkLog α} {a : Id α} {next : α → StateM WalkLog β}
    {value : α → Id β} (h : Follows f f' walk a) (hnext : ∀ x, Follows f f' (next x) (value x)) :
    Follows f f' (walk >>= next) (a >>= value) where
  sectors log := List.Subset.trans (h.sectors log) ((hnext _).sectors _)
  degraded log hlog := (hnext _).degraded _ (h.degraded log hlog)
  value log hclean hsame := by
    have hrest := hnext (walk.run log).1
    -- the first part was not degraded either, and went through no other sectors
    have hfirst : (walk.run log).1 = a := by
      refine h.value log ?_ fun w hw => hsame w (hrest.sectors _ hw)
      by_contra hbad
      have hdegraded := hrest.degraded _ (by simpa using hbad)
      exact absurd (hclean.symm.trans hdegraded) Bool.false_ne_true
    have hsecond := hrest.value (walk.run log).2 hclean hsame
    rw [hfirst] at hsecond
    exact (congrArg (fun x => ((next x).run (walk.run log).2).1) hfirst).trans hsecond

/-- A read that does not fail gives what the store holds. -/
theorem resolve_run (faults : ℕ → Option String) (lba : ℕ) (log : WalkLog) :
    ∃ bad, ((f.resolve faults lba).run log).2 =
        ⟨log.reads+1,
          if lba-(f.geo.partStart+reservedSectors) < f.geo.fatsz then
            log.sectors ++ [lba-(f.geo.partStart+reservedSectors)] else log.sectors,
          log.degraded || decide (f.geo.fatsz ≤ lba-(f.geo.partStart+reservedSectors)) || bad⟩ ∧
      (bad = false → ((f.resolve faults lba).run log).1 = f.stored lba) := by
  unfold resolve
  cases hget : (f.store.get lba (faults log.reads)).1 with
  | ok sector =>
    refine ⟨false, ?_, fun _ => ?_⟩
    · simp only [StateT.run, hget, Bool.or_false]
    · simp only [StateT.run, hget]
      unfold stored
      rw [get_ok_of_fault hget]
  | error e =>
    refine ⟨true, ?_, fun h => absurd h.symm Bool.false_ne_true⟩
    simp only [StateT.run, hget, Bool.or_true]

theorem fatLba_within (f : Facade) (c : ℕ) :
    f.fatLba c-(f.geo.partStart+reservedSectors) = c*4/sectorBytes := by
  rw [fatLba, ← Nat.add_assoc, Nat.add_sub_cancel_left]

section Walks

variable (hgeo : f'.geo = f.geo) (hfat : f'.fat = f.fat) (faults : ℕ → Option String)

include hgeo in
theorem follows_resolve {c : ℕ} (hc : c*4/sectorBytes < f.geo.fatsz) :
    Follows f f' (f.resolve faults (f.fatLba c)) (f'.stored (f'.fatLba c)) := by
  have hin : ¬ f.geo.fatsz ≤ c*4/sectorBytes := Nat.not_le_of_lt hc
  refine ⟨fun log => ?_, fun log hlog => ?_, fun log hclean hsame => ?_⟩
  all_goals obtain ⟨bad, hlog', hvalue⟩ := f.resolve_run faults (f.fatLba c) log
  all_goals rw [fatLba_within] at hlog'
  · rw [hlog', if_pos hc]
    exact List.subset_append_left _ _
  · rw [hlog', hlog]
    rfl
  · rw [hlog'] at hclean hsame
    have hbad : bad = false := (Bool.or_eq_false_iff.mp hclean).2
    rw [if_pos hc] at hsame
    -- the sector asked for is on record, so the two FATs agree on it
    have hcell := hsame (c*4/sectorBytes) (List.mem_append_right _ List.mem_cons_self)
    simp only [fatCopy, hgeo, if_pos hc] at hcell
    rw [hvalue hbad]
    unfold fatLba
    rw [hgeo]
    exact hcell.symm

/-- The log of a read of one entry is that of its sector. -/
theorem fatEntry_log (host : HostFiles) (c : ℕ) (log : WalkLog) :
    ((fatEntry (f.resolve faults) f host c).run log).2 =
      ((f.resolve faults (f.fatLba c)).run log).2 := by
  have hsector : ((sectorAt (f.resolve faults) f host (f.fatLba c)).run log).2 =
      ((f.resolve faults (f.fatLba c)).run log).2 := by
    unfold sectorAt
    show ((_ : StateM WalkLog Sector).run ((f.resolve faults (f.fatLba c)).run log).2).2 = _
    split <;> rfl
  exact hsector

/-- Past FAT copy 0 a walk is degraded, so nothing is said of its value. -/
theorem follows_outside (host : HostFiles) {c : ℕ} (hout : f.geo.fatsz ≤ c*4/sectorBytes) (a : ℕ) :
    Follows f f' (fatEntry (f.resolve faults) f host c) a := by
  refine ⟨fun log => ?_, fun log _ => ?_, fun log hclean => ?_⟩
  all_goals obtain ⟨bad, hlog', -⟩ := f.resolve_run faults (f.fatLba c) log
  all_goals rw [fatLba_within] at hlog'
  · rw [fatEntry_log, hlog', if_neg (Nat.not_lt_of_le hout)]
    exact List.Subset.refl _
  · simp only [fatEntry_log, hlog', hout, decide_true, Bool.or_true, Bool.true_or]
  · simp only [fatEntry_log, hlog', hout, decide_true, Bool.or_true, Bool.true_or,
      Bool.true_eq_false] at hclean

include hgeo hfat

theorem follows_chainOf (host host' : HostFiles) (first : ℕ) :
    Follows f f' (chainOf (f.resolve faults) f host first) (chainOf f'.stored f' host' first) :=
  related_chainOf (R := fun α (walk : StateM WalkLog α) (a : Id α) => Follows f f' walk a)
    (fun _ a => follows_pure a) (fun _ _ _ _ _ _ h hnext => h.seq hnext) hgeo hfat
    (fun _ hc => follows_resolve hgeo faults hc) (fun _ hc => follows_outside faults host hc _) first

/-- An undegraded walk is the chain of every FAT that has the same sectors where it went. -/
theorem freshWalk_eq {host host' : HostFiles} {first : ℕ}
    (hclean : (f.freshWalk host faults first).2.degraded = false)
    (hsame : ∀ w ∈ (f.freshWalk host faults first).2.sectors, f'.fatCopy w = f.fatCopy w) :
    chainOf f'.stored f' host' first = (f.freshWalk host faults first).1 :=
  ((follows_chainOf hgeo hfat faults host host' first).value .start hclean hsame).symm

end Walks

end Facade

end IzarraVM.Katea
