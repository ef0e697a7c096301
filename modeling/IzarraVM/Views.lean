import IzarraVM.StepRuns

/-! Machines that answer their inputs, and the views of a state that decide every answer to come. -/
namespace IzarraVM.Views

variable {σ ι ω α κ : Type*} {step : σ → ι → ω × σ}

def answers (step : σ → ι → ω × σ) : List ι → σ → List ω
  | [], _ => []
  | i :: rest, s => (step s i).1 :: answers step rest (step s i).2

def Decides (step : σ → ι → ω × σ) (view : σ → κ) : Prop :=
  ∀ s t i, view s = view t → (step s i).1 = (step t i).1 ∧ view (step s i).2 = view (step t i).2

theorem Decides.answers_eq {view : σ → κ} (h : Decides step view) (inputs : List ι) {s t : σ}
    (hview : view s = view t) : answers step inputs s = answers step inputs t := by
  induction inputs generalizing s t with
  | nil => rfl
  | cons i rest ih =>
    obtain ⟨hanswer, hnext⟩ := h s t i hview
    rw [answers, answers, hanswer, ih hnext]

/-- States that answer every run alike answer alike after every run. -/
theorem answer_of_answers {s t : σ} (h : ∀ inputs, answers step inputs s = answers step inputs t)
    (inputs : List ι) (i : ι) : (step (Runs.exec (fun s i => (step s i).2) inputs s) i).1 =
      (step (Runs.exec (fun s i => (step s i).2) inputs t) i).1 := by
  induction inputs generalizing s t with
  | nil => exact (List.cons.inj (h [i])).1
  | cons j rest ih => exact ih fun more => (List.cons.inj (h (j :: more))).2

section NormalForms

variable {norm inner : σ → σ} {f g : σ → σ}

def Respects (norm f : σ → σ) : Prop := ∀ s, norm (f (norm s)) = norm (f s)

def Blind (norm : σ → σ) (see : σ → α) : Prop := ∀ s, see (norm s) = see s

theorem Respects.congr (h : Respects norm f) {s t : σ} (hnorm : norm s = norm t) :
    norm (f s) = norm (f t) := by
  rw [← h s, hnorm, h t]

theorem Blind.congr {see : σ → α} (h : Blind norm see) {s t : σ} (hnorm : norm s = norm t) :
    see s = see t := by
  rw [← h s, hnorm, h t]

theorem Respects.andThen (hf : Respects norm f) (hg : Respects norm g) :
    Respects norm fun s => g (f s) := by
  intro s
  exact hg.congr (hf s)

/-- An operation that commutes with the normal form respects it. -/
theorem Respects.of_commutes (hnorm : ∀ s, norm (norm s) = norm s)
    (h : ∀ s, f (norm s) = norm (f s)) : Respects norm f := by
  intro s
  rw [h s, hnorm]

/-- Two normal forms that commute, one after the other. -/
theorem Respects.comp (hcomm : ∀ s, inner (norm s) = norm (inner s)) (hf : Respects norm f)
    (hf' : Respects inner f) : Respects (fun s => norm (inner s)) f := by
  intro s
  calc norm (inner (f (norm (inner s))))
    _ = inner (norm (f (norm (inner s)))) := (hcomm _).symm
    _ = inner (norm (f (inner s))) := by rw [hf]
    _ = norm (inner (f (inner s))) := hcomm _
    _ = norm (inner (f s)) := by rw [hf']

theorem Blind.comp {see : σ → α} (h : Blind norm see) (h' : Blind inner see) :
    Blind (fun s => norm (inner s)) see := by
  intro s
  rw [h, h']

/-- A normal form that every step respects, and whose answers are blind to the rest. -/
theorem decides_of_normal (hsee : ∀ i, Blind norm fun s => (step s i).1)
    (hstep : ∀ i, Respects norm fun s => (step s i).2) : Decides step norm :=
  fun _ _ i hnorm => ⟨(hsee i).congr hnorm, (hstep i).congr hnorm⟩

end NormalForms

end IzarraVM.Views
