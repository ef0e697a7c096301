import Mathlib

/-! Operations that can leave the range of their type; a run stops at the first one that does. -/
namespace IzarraVM.Checked

inductive Slip where
  | outOfRange
  | overflow
  | underflow
deriving DecidableEq

def add (width a b : ℕ) : Except Slip ℕ :=
  if a + b < 2 ^ width then .ok (a + b) else .error .overflow

def mul (width a b : ℕ) : Except Slip ℕ :=
  if a * b < 2 ^ width then .ok (a * b) else .error .overflow

def sub (a b : ℕ) : Except Slip ℕ := if b ≤ a then .ok (a - b) else .error .underflow

def entry {α : Type*} (table : List α) (i : ℕ) : Except Slip α :=
  match table[i]? with
  | some a => .ok a
  | none => .error .outOfRange

theorem add_ok {width a b : ℕ} (h : a + b < 2 ^ width) : add width a b = .ok (a + b) := if_pos h

theorem mul_ok {width a b : ℕ} (h : a * b < 2 ^ width) : mul width a b = .ok (a * b) := if_pos h

theorem sub_ok {a b : ℕ} (h : b ≤ a) : sub a b = .ok (a - b) := if_pos h

theorem add_error {width a b : ℕ} (h : ¬ a + b < 2 ^ width) : add width a b = .error .overflow :=
  if_neg h

theorem sub_error {a b : ℕ} (h : ¬ b ≤ a) : sub a b = .error .underflow := if_neg h

/-- What a difference that does not underflow is. -/
theorem eq_of_sub_ok {a b c : ℕ} (h : sub a b = .ok c) : b ≤ a ∧ c = a - b := by
  unfold sub at h
  split_ifs at h with hle
  cases h
  exact ⟨hle, rfl⟩

variable {σ ι ε : Type*}

section Parts

variable {α β : Type*} {x : Except ε α}

/-- What succeeds has succeeded in its first part. -/
theorem of_bind_ok {f : α → Except ε β} {b : β} (h : x.bind f = .ok b) :
    ∃ a, x = .ok a ∧ f a = .ok b := by
  cases x with
  | error e => cases h
  | ok a => exact ⟨a, rfl, h⟩

theorem of_map_ok {f : α → β} {b : β} (h : x.map f = .ok b) : ∃ a, x = .ok a ∧ f a = b := by
  cases x with
  | error e => cases h
  | ok a => exact ⟨a, rfl, Except.ok.inj h⟩

end Parts

def run (step : σ → ι → Except ε σ) : List ι → σ → Except ε σ
  | [], s => .ok s
  | i :: rest, s => step s i >>= run step rest

variable {step : σ → ι → Except ε σ}

theorem run_append {inputs : List ι} {s t : σ}
    (h : run step inputs s = .ok t) (rest : List ι) :
    run step (inputs ++ rest) s = run step rest t := by
  induction inputs generalizing s with
  | nil =>
    cases h
    rfl
  | cons i inputs ih =>
    obtain ⟨next, hstep, hrest⟩ := of_bind_ok h
    rw [List.cons_append, run, hstep]
    exact ih hrest

/-- Where every step succeeds and carries on what holds of the inputs so far, so does a run. -/
theorem run_total {H : List ι → σ → Prop} {s : σ} (hstart : H [] s)
    (hstep : ∀ inputs t i, run step inputs s = .ok t → H inputs t →
      ∃ t', step t i = .ok t' ∧ H (inputs ++ [i]) t') (inputs : List ι) :
    ∃ t, run step inputs s = .ok t ∧ H inputs t := by
  induction inputs using List.reverseRecOn with
  | nil => exact ⟨s, rfl, hstart⟩
  | append_singleton inputs i ih =>
    obtain ⟨t, hrun, hH⟩ := ih
    obtain ⟨t', ht', hH'⟩ := hstep inputs t i hrun hH
    refine ⟨t', ?_, hH'⟩
    rw [run_append hrun, run, ht']
    rfl

/-- What every step keeps, a run keeps. -/
theorem run_invariant {J : σ → Prop}
    (hJ : ∀ s i s', J s → step s i = .ok s' → J s') (inputs : List ι) {s t : σ} (hs : J s)
    (h : run step inputs s = .ok t) : J t := by
  induction inputs generalizing s with
  | nil =>
    cases h
    exact hs
  | cons i rest ih =>
    obtain ⟨next, hstep, hrest⟩ := of_bind_ok h
    exact ih (hJ s i next hs hstep) hrest

def Along (step : σ → ι → Except ε σ) (P : σ → ι → Prop) : List ι → σ → Prop
  | [], _ => True
  | i :: rest, s => P s i ∧ ∀ s', step s i = .ok s' → Along step P rest s'

/-- Where a step succeeds exactly if it meets `P`, a run succeeds exactly if every step does. -/
theorem run_ok_iff {J : σ → Prop} {P : σ → ι → Prop}
    (hJ : ∀ s i s', J s → step s i = .ok s' → J s')
    (hP : ∀ s i, J s → ((∃ s', step s i = .ok s') ↔ P s i)) (inputs : List ι) {s : σ} (hs : J s) :
    (∃ s', run step inputs s = .ok s') ↔ Along step P inputs s := by
  induction inputs generalizing s with
  | nil => exact iff_of_true ⟨s, rfl⟩ trivial
  | cons i rest ih =>
    constructor
    · rintro ⟨last, hlast⟩
      obtain ⟨next, hstep, hlast⟩ := of_bind_ok hlast
      refine ⟨(hP s i hs).mp ⟨next, hstep⟩, fun s' hs' => ?_⟩
      rw [hstep] at hs'
      cases hs'
      exact (ih (hJ s i next hs hstep)).mp ⟨last, hlast⟩
    · rintro ⟨hmeets, hrest⟩
      obtain ⟨next, hstep⟩ := (hP s i hs).mpr hmeets
      obtain ⟨last, hlast⟩ := (ih (hJ s i next hs hstep)).mpr (hrest next hstep)
      refine ⟨last, ?_⟩
      rw [run, hstep]
      exact hlast

def Throughout (step : σ → ι → Except ε σ) (Q : σ → Prop) : List ι → σ → Prop
  | [], s => Q s
  | i :: rest, s => Q s ∧ ∀ s', step s i = .ok s' → Throughout step Q rest s'

theorem Throughout.head {Q : σ → Prop} {inputs : List ι} {s : σ}
    (h : Throughout step Q inputs s) : Q s := by
  cases inputs with
  | nil => exact h
  | cons => exact h.1

/-- Where a step that succeeds keeps `Q` exactly if it meets `P`, and one that fails meets it, a run
keeps `Q` throughout exactly if every step meets `P`. -/
theorem throughout_iff {Q : σ → Prop} {P : σ → ι → Prop}
    (hQ : ∀ s i s', Q s → step s i = .ok s' → (Q s' ↔ P s i))
    (hfail : ∀ s i e, step s i = .error e → P s i) (inputs : List ι) {s : σ} (hs : Q s) :
    Throughout step Q inputs s ↔ Along step P inputs s := by
  induction inputs generalizing s with
  | nil => exact iff_of_true hs trivial
  | cons i rest ih =>
    rw [Throughout, Along]
    cases hstep : step s i with
    | error e => exact iff_of_true ⟨hs, nofun⟩ ⟨hfail s i e hstep, nofun⟩
    | ok next =>
      have hnext := hQ s i next hs hstep
      constructor
      · rintro ⟨-, hall⟩
        have hq := (hall next rfl).head
        refine ⟨hnext.mp hq, fun s' hs' => ?_⟩
        cases hs'
        exact (ih hq).mp (hall next rfl)
      · rintro ⟨hp, hall⟩
        refine ⟨hs, fun s' hs' => ?_⟩
        cases hs'
        exact (ih (hnext.mpr hp)).mpr (hall next rfl)

end IzarraVM.Checked
