import Mathlib

/-! Unbounded loops as bounded runs. A body that never returns is `none`. -/
namespace IzarraVM.Loop

variable {σ α : Type*}

inductive Pass (σ α : Type*) where
  | done (result : α)
  | next (state : σ)
deriving Repr, DecidableEq

def run (body : σ → Option (Pass σ α)) : ℕ → σ → Option α
  | 0, _ => none
  | n+1, s =>
    match body s with
    | none => none
    | some (.done a) => some a
    | some (.next s') => run body n s'

variable {body : σ → Option (Pass σ α)} {s s' : σ} {a : α} {n : ℕ}

theorem run_done (h : body s = some (.done a)) : run body (n+1) s = some a := by
  simp only [run, h]

theorem run_next (h : body s = some (.next s')) : run body (n+1) s = run body n s' := by
  simp only [run, h]

theorem run_stuck (h : body s = none) : run body n s = none := by
  cases n <;> simp only [run, h]

theorem run_succ_of_some (h : run body n s = some a) : run body (n+1) s = some a := by
  induction n generalizing s with
  | zero => cases h
  | succ n ih =>
    rw [run] at h ⊢
    cases hb : body s with
    | none => simp only [hb] at h; cases h
    | some p =>
      cases p with
      | done b => simpa only [hb] using h
      | next t =>
        simp only [hb] at h ⊢
        exact ih h

/-- Further passes do not change a value the loop has already left with. -/
theorem run_mono {m : ℕ} (hnm : n ≤ m) (h : run body n s = some a) : run body m s = some a := by
  induction hnm with
  | refl => exact h
  | step _ ih => exact run_succ_of_some ih

/-- A set of states the body never leaves, and never returns from, is never left. -/
theorem run_eq_none_of_closed (P : σ → Prop)
    (hP : ∀ t, P t → body t = none ∨ ∃ t', body t = some (.next t') ∧ P t')
    (n : ℕ) (s : σ) (hs : P s) : run body n s = none := by
  induction n generalizing s with
  | zero => rfl
  | succ n ih =>
    rcases hP s hs with hb | ⟨t, hb, ht⟩
    · exact run_stuck hb
    · rw [run_next hb]
      exact ih t ht

def fixedBody (f : ℕ → ℕ) (x : ℕ) : Option (Pass ℕ ℕ) :=
  if f x = x then some (.done x) else some (.next (f x))

variable {f : ℕ → ℕ}

theorem fixedBody_of_fixed {x : ℕ} (h : f x = x) : fixedBody f x = some (.done x) := by
  simp only [fixedBody, h, ↓reduceIte]

theorem fixedBody_of_ne {x : ℕ} (h : f x ≠ x) :
    fixedBody f x = some (.next (f x)) := by
  simp only [fixedBody, h, ↓reduceIte]

/-- A value the fixed-point loop leaves with is a fixed point. -/
theorem fixed_of_run {n x y : ℕ} (h : run (fixedBody f) n x = some y) : f y = y := by
  induction n generalizing x with
  | zero => cases h
  | succ n ih =>
    by_cases hx : f x = x
    · rw [run_done (fixedBody_of_fixed hx)] at h
      cases h
      exact hx
    · rw [run_next (fixedBody_of_ne hx)] at h
      exact ih h

/-- A loop on a map without fixed points never returns. -/
theorem run_fixedBody_none (hf : ∀ y, f y ≠ y) (n x : ℕ) :
    run (fixedBody f) n x = none := by
  cases h : run (fixedBody f) n x with
  | none => rfl
  | some y => exact absurd (fixed_of_run h) (hf y)

/-- Kleene iteration below a pre-fixed point `b`: from a point the map moves up,
the loop climbs to a fixed point that is still at most `b`. `f` only has to be
monotone up to `b`, since the climb never looks further. -/
theorem run_fixedBody_climbs {b : ℕ} (hb : f b ≤ b)
    (hmono : ∀ x y, x ≤ y → y ≤ b → f x ≤ f y) (x : ℕ) (hxb : x ≤ b) (hx : x ≤ f x) :
    ∃ y, run (fixedBody f) (b-x+1) x = some y ∧ f y = y ∧ y ≤ b := by
  induction hk : b - x using Nat.strong_induction_on generalizing x with
  | _ k ih =>
    by_cases hfx : f x = x
    · exact ⟨x, run_done (fixedBody_of_fixed hfx), hfx, hxb⟩
    · have hlt : x < f x := lt_of_le_of_ne hx (Ne.symm hfx)
      have hfb : f x ≤ b := (hmono x b hxb le_rfl).trans hb
      obtain ⟨y, hrun, hy, hyb⟩ := ih (b - f x) (by omega) (f x) hfb (hmono x (f x) hx hfb) rfl
      refine ⟨y, ?_, hy, hyb⟩
      rw [run_next (fixedBody_of_ne hfx)]
      exact run_mono (by omega) hrun

end IzarraVM.Loop
