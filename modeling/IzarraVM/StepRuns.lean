import Mathlib

/-! Runs of a machine that takes one input a step. -/
namespace IzarraVM.Runs

variable {σ τ ι : Type*}

variable (step : σ → ι → σ)

def exec (inputs : List ι) (s : σ) : σ := inputs.foldl step s

@[simp] theorem exec_nil (s : σ) : exec step [] s = s := rfl

@[simp] theorem exec_cons (i : ι) (inputs : List ι) (s : σ) :
    exec step (i :: inputs) s = exec step inputs (step s i) := rfl

theorem exec_append (first second : List ι) (s : σ) :
    exec step (first ++ second) s = exec step second (exec step first s) := List.foldl_append

variable {step : σ → ι → σ}

/-- What relates two machines, and is kept when both take a step on the same
input, relates their states after any run. -/
theorem exec_related {step' : τ → ι → τ} {R : σ → τ → Prop}
    (hstep : ∀ s t i, R s t → R (step s i) (step' t i)) (inputs : List ι) {s : σ} {t : τ}
    (h : R s t) : R (exec step inputs s) (exec step' inputs t) := by
  induction inputs generalizing s t with
  | nil => exact h
  | cons i rest ih =>
    rw [exec_cons, exec_cons]
    exact ih (hstep s t i h)

/-- `P` holds of every step of a run: of the state it is taken in and its input. -/
def Along (step : σ → ι → σ) (P : σ → ι → Prop) : List ι → σ → Prop
  | [], _ => True
  | i :: rest, s => P s i ∧ Along step P rest (step s i)

instance Along.decidable (step : σ → ι → σ) (P : σ → ι → Prop) [∀ s i, Decidable (P s i)] :
    (inputs : List ι) → (s : σ) → Decidable (Along step P inputs s)
  | [], _ => isTrue trivial
  | i :: rest, s =>
    have := Along.decidable step P rest (step s i)
    inferInstanceAs (Decidable (P s i ∧ Along step P rest (step s i)))

theorem Along.of_forall {P : σ → ι → Prop} (h : ∀ s i, P s i) :
    ∀ (inputs : List ι) (s : σ), Along step P inputs s
  | [], _ => trivial
  | i :: rest, s => ⟨h s i, Along.of_forall h rest (step s i)⟩

theorem along_append {P : σ → ι → Prop} (first second : List ι) (s : σ) :
    Along step P (first ++ second) s ↔
      Along step P first s ∧ Along step P second (exec step first s) := by
  induction first generalizing s with
  | nil => exact ⟨fun h => ⟨trivial, h⟩, And.right⟩
  | cons i rest ih =>
    rw [List.cons_append, Along, Along, ih, exec_cons, and_assoc]

/-- `Q` holds in every state of a run. -/
def Throughout (step : σ → ι → σ) (Q : σ → Prop) : List ι → σ → Prop
  | [], s => Q s
  | i :: rest, s => Q s ∧ Throughout step Q rest (step s i)

theorem Throughout.head {Q : σ → Prop} {inputs : List ι} {s : σ}
    (h : Throughout step Q inputs s) : Q s := by
  cases inputs with
  | nil => exact h
  | cons => exact h.1

theorem Throughout.of_keeps {Q : σ → Prop} (inputs : List ι)
    (hstep : ∀ i ∈ inputs, ∀ s, Q s → Q (step s i)) {s : σ} (h : Q s) :
    Throughout step Q inputs s := by
  induction inputs generalizing s with
  | nil => exact h
  | cons i rest ih =>
    exact ⟨h, ih (fun j hj => hstep j (List.mem_cons_of_mem i hj)) (hstep i List.mem_cons_self s h)⟩

/-- Where a step keeps `Q` exactly when it meets `P`, a run keeps `Q` throughout exactly
when every step of it meets `P`. -/
theorem throughout_iff {J Q : σ → Prop} {W P : σ → ι → Prop}
    (hJ : ∀ s i, J s → Q s → W s i → J (step s i))
    (hQ : ∀ s i, J s → Q s → W s i → (Q (step s i) ↔ P s i)) (inputs : List ι) {s : σ}
    (hj : J s) (hq : Q s) (hw : Along step W inputs s) :
    Throughout step Q inputs s ↔ Along step P inputs s := by
  induction inputs generalizing s with
  | nil => exact iff_of_true hq trivial
  | cons i rest ih =>
    obtain ⟨hi, hrest⟩ := hw
    have hstep := hQ s i hj hq hi
    constructor
    · rintro ⟨-, hall⟩
      have hq' : Q (step s i) := hall.head
      exact ⟨hstep.mp hq', (ih (hJ s i hj hq hi) hq' hrest).mp hall⟩
    · rintro ⟨hp, hall⟩
      have hq' := hstep.mpr hp
      exact ⟨hq, (ih (hJ s i hj hq hi) hq' hrest).mpr hall⟩

end IzarraVM.Runs
