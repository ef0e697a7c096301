import Mathlib

/-! Blocks of units moved under a counter, and what the log of such a transfer says. -/
namespace IzarraVM.BlockCount

inductive Mark where
  /-- A transfer was started with a block of this size. -/
  | armed (size : ℕ)
  | fetched
  /-- A block completed; the size of the block loaded in its place, if one was. -/
  | completed (reload : Option ℕ)
  /-- The transfer was given up. -/
  | dropped
  deriving DecidableEq

def Mark.loads : Mark → Option ℕ
  | .armed size => some size
  | .completed reload => reload
  | _ => none

def Mark.isCompletion : Mark → Bool
  | .completed _ => true
  | _ => false

variable (log : List Mark)

def completions : ℕ := log.countP Mark.isCompletion

theorem completions_append {m : Mark} (hm : m.isCompletion = false) :
    completions (log ++ [m]) = completions log := by
  simp [completions, hm]

theorem completions_completed (reload : Option ℕ) :
    completions (log ++ [.completed reload]) = completions log + 1 := by
  simp [completions, Mark.isCompletion]

/-- The law of counted blocks, for a log in the order it was written. -/
structure Law (log : List Mark) : Prop where
  /-- A block completes when as many units have moved as its size at the load. -/
  exact : ∀ {before after : List Mark} {load : Mark} {size k : ℕ} {reload : Option ℕ},
    log = before ++ load :: (List.replicate k .fetched ++ .completed reload :: after) →
      load.loads = some size → k = size
  /-- The completion follows the last unit of the block at once. -/
  prompt : ∀ {before after : List Mark} {load : Mark} {size : ℕ},
    log = before ++ load :: (List.replicate size .fetched ++ after) → load.loads = some size →
      ∃ reload rest, after = .completed reload :: rest
  /-- After a completion that loaded no block, no unit moves until the next start. -/
  idle : ∀ {before between after : List Mark},
    log = before ++ .completed none :: (between ++ .fetched :: after) → ∃ size, .armed size ∈ between

inductive Count where
  | idle
  | left (units : ℕ)
  | due
  deriving DecidableEq

def Count.load (size : ℕ) : Option Count := if size = 0 then none else some (.left size)

def Count.next : Count → Mark → Option Count
  | .due, .completed none => some .idle
  | .due, .completed (some size) => Count.load size
  | .due, _ => none
  | .left units, .fetched => some (if units = 1 then .due else .left (units - 1))
  | _, .armed size => Count.load size
  | _, .dropped => some .idle
  | _, _ => none

def Counted (count : Count) : Prop := log.foldlM Count.next .idle = some count

theorem counted_nil : Counted [] .idle := rfl

theorem Counted.mark {log : List Mark} {count count' : Count} (h : Counted log count) {m : Mark}
    (hm : count.next m = some count') : Counted (log ++ [m]) count' := by
  unfold Counted at h ⊢
  rw [List.foldlM_append, h]
  simpa using hm

/-- The rest of an accepted log is accepted from the counter it starts at. -/
theorem accepted_rest {before rest : List Mark} {start final : Count}
    (h : (before ++ rest).foldlM Count.next start = some final) :
    ∃ count, rest.foldlM Count.next count = some final := by
  rw [List.foldlM_append] at h
  obtain ⟨count, -, hrest⟩ := Option.bind_eq_some_iff.mp h
  exact ⟨count, hrest⟩

theorem accepted_cons {m : Mark} {rest : List Mark} {start final : Count}
    (h : (m :: rest).foldlM Count.next start = some final) :
    ∃ count, start.next m = some count ∧ rest.foldlM Count.next count = some final := by
  rw [List.foldlM_cons] at h
  exact Option.bind_eq_some_iff.mp h

theorem Count.load_eq_some {size : ℕ} {count : Count} (h : Count.load size = some count) :
    0 < size ∧ count = .left size := by
  unfold Count.load at h
  split at h
  · cases h
  · exact ⟨by omega, (Option.some.inj h).symm⟩

/-- A mark that loads a block leaves the counter at its size. -/
theorem Count.next_loads {start count : Count} {m : Mark} {size : ℕ} (hm : m.loads = some size)
    (h : start.next m = some count) : 0 < size ∧ count = .left size := by
  cases m with
  | fetched => cases hm
  | dropped => cases hm
  | armed n =>
    obtain rfl : n = size := Option.some.inj hm
    cases start with
    | idle => exact Count.load_eq_some h
    | left units => exact Count.load_eq_some h
    | due => cases h
  | completed reload =>
    obtain rfl : reload = some size := hm
    cases start with
    | idle => cases h
    | left units => cases h
    | due => exact Count.load_eq_some h

/-- What can stand after units fetched from a loaded block: fewer left, or the completion due. -/
theorem accepted_fetches {rest : List Mark} {final : Count} (k : ℕ) {units : ℕ} (hunits : 0 < units)
    (h : (List.replicate k Mark.fetched ++ rest).foldlM Count.next (.left units) = some final) :
    (k < units ∧ rest.foldlM Count.next (.left (units - k)) = some final) ∨
      (k = units ∧ rest.foldlM Count.next .due = some final) := by
  induction k generalizing units with
  | zero => exact .inl ⟨hunits, h⟩
  | succ k ih =>
    rw [List.replicate_succ, List.cons_append] at h
    obtain ⟨count, hnext, hrest⟩ := accepted_cons h
    obtain rfl := Option.some.inj hnext
    by_cases hone : units = 1
    · -- the last unit: only the completion may follow, so no further unit does
      rw [if_pos hone] at hrest
      cases k with
      | zero => exact .inr ⟨hone.symm, hrest⟩
      | succ k =>
        obtain ⟨_, hbad, -⟩ := accepted_cons hrest
        cases hbad
    · rw [if_neg hone] at hrest
      rcases ih (by omega) hrest with ⟨hk, hrest⟩ | ⟨hk, hrest⟩
      · refine .inl ⟨by omega, ?_⟩
        rwa [show units - (k + 1) = units - 1 - k by omega]
      · exact .inr ⟨by omega, hrest⟩

/-- From an idle counter a unit moves only after a start. -/
theorem armed_before_fetch {between after : List Mark} {final : Count}
    (h : (between ++ .fetched :: after).foldlM Count.next .idle = some final) :
    ∃ size, .armed size ∈ between := by
  induction between with
  | nil =>
    obtain ⟨_, hbad, -⟩ := accepted_cons h
    cases hbad
  | cons m between ih =>
    cases m with
    | armed size => exact ⟨size, List.mem_cons_self⟩
    | dropped =>
      obtain ⟨count, hnext, hrest⟩ := accepted_cons h
      obtain rfl := Option.some.inj hnext
      obtain ⟨size, hmem⟩ := ih hrest
      exact ⟨size, List.mem_cons_of_mem _ hmem⟩
    | fetched =>
      obtain ⟨_, hbad, -⟩ := accepted_cons h
      cases hbad
    | completed reload =>
      obtain ⟨_, hbad, -⟩ := accepted_cons h
      cases hbad

/-- A counted log with no completion due keeps the law. -/
theorem Counted.law {log : List Mark} {count : Count} (h : Counted log count)
    (hdue : count ≠ .due) : Law log where
  exact := by
    intro before after load size k reload hlog hload
    rw [Counted, hlog] at h
    obtain ⟨start, hstart⟩ := accepted_rest h
    obtain ⟨loaded, hnext, hrest⟩ := accepted_cons hstart
    obtain ⟨hpos, rfl⟩ := Count.next_loads hload hnext
    rcases accepted_fetches k hpos hrest with ⟨-, hbad⟩ | ⟨hk, -⟩
    · obtain ⟨_, hbad, -⟩ := accepted_cons hbad
      cases hbad
    · exact hk
  prompt := by
    intro before after load size hlog hload
    rw [Counted, hlog] at h
    obtain ⟨start, hstart⟩ := accepted_rest h
    obtain ⟨loaded, hnext, hrest⟩ := accepted_cons hstart
    obtain ⟨hpos, rfl⟩ := Count.next_loads hload hnext
    rcases accepted_fetches size hpos hrest with ⟨hbad, -⟩ | ⟨-, hafter⟩
    · omega
    · -- the counter stands at `due`, so the log goes on, and with a completion
      cases after with
      | nil => exact absurd (Option.some.inj hafter).symm hdue
      | cons m rest =>
        obtain ⟨_, hm, -⟩ := accepted_cons hafter
        cases m with
        | completed reload => exact ⟨reload, rest, rfl⟩
        | armed size => cases hm
        | fetched => cases hm
        | dropped => cases hm
  idle := by
    intro before between after hlog
    rw [Counted, hlog] at h
    obtain ⟨start, hstart⟩ := accepted_rest h
    obtain ⟨count', hnext, hrest⟩ := accepted_cons hstart
    cases start with
    | idle => cases hnext
    | left units => cases hnext
    | due =>
      obtain rfl := Option.some.inj hnext
      exact armed_before_fetch hrest

end IzarraVM.BlockCount
