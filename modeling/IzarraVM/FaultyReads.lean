import Mathlib

/-! Computations with reads that can fail, and answers that are trusted when none did. -/
namespace IzarraVM

structure Tally where
  reads : ℕ
  errors : ℕ

structure Reading (α : Type) where
  run : Tally → α × Tally
  reads_le : ∀ t, t.reads ≤ (run t).2.reads
  errors_le : ∀ t, t.errors ≤ (run t).2.errors

namespace Reading

variable {α β : Type}

protected def pure (a : α) : Reading α :=
  ⟨fun t => (a, t), fun _ => Nat.le_refl _, fun _ => Nat.le_refl _⟩

protected def bind (m : Reading α) (f : α → Reading β) : Reading β where
  run t := (f (m.run t).1).run (m.run t).2
  reads_le t := Nat.le_trans (m.reads_le t) ((f (m.run t).1).reads_le (m.run t).2)
  errors_le t := Nat.le_trans (m.errors_le t) ((f (m.run t).1).errors_le (m.run t).2)

instance : Monad Reading where
  pure := Reading.pure
  bind := Reading.bind

def device (answer : ℕ → α × Bool) : Reading α where
  run t := ((answer t.reads).1, ⟨t.reads+1, t.errors+(if (answer t.reads).2 then 1 else 0)⟩)
  reads_le _ := Nat.le_succ _
  errors_le _ := Nat.le_add_right _ _

def failures : Reading ℕ :=
  ⟨fun t => (t.errors, t), fun _ => Nat.le_refl _, fun _ => Nat.le_refl _⟩

def bracket (m : Reading α) : Reading (Option α) where
  run t := (if (m.run t).2.errors = t.errors then some (m.run t).1 else none, (m.run t).2)
  reads_le := m.reads_le
  errors_le := m.errors_le

def Gives (m : Reading α) (a : α) : Prop := ∀ t, (m.run t).2.errors = t.errors → (m.run t).1 = a

def Always (n : ℕ) (P : α → Prop) (m : Reading α) : Prop := ∀ t, n ≤ t.reads → P (m.run t).1

theorem gives_pure (a : α) : Gives (pure a) a := fun _ _ => rfl

theorem Gives.bind {m : Reading α} {f : α → Reading β} {a : α} {b : β} (hm : Gives m a)
    (hf : Gives (f a) b) : Gives (m >>= f) b := by
  intro t ht
  change ((f (m.run t).1).run (m.run t).2).2.errors = t.errors at ht
  have hleft := m.errors_le t
  have hright := (f (m.run t).1).errors_le (m.run t).2
  have hclean : (m.run t).2.errors = t.errors := by omega
  have ha := hm t hclean
  change ((f (m.run t).1).run (m.run t).2).1 = b
  rw [ha] at ht ⊢
  exact hf _ (ht.trans hclean.symm)

/-- The rule for one definition read at both a device and its contents. -/
theorem Gives.seq {m : Reading α} {f : α → Reading β} {a : Id α} {g : α → Id β}
    (hm : Gives m a) (hf : ∀ x, Gives (f x) (g x)) : Gives (m >>= f) (a >>= g) := hm.bind (hf a)

theorem gives_mapM {γ : Type} {f : γ → Reading α} {g : γ → Id α} (hf : ∀ x, Gives (f x) (g x))
    (l : List γ) : Gives (l.mapM' f) (l.mapM' g) := by
  induction l with
  | nil => exact gives_pure []
  | cons x rest ih => exact (hf x).bind (ih.bind (gives_pure _))

theorem gives_device {answer : ℕ → α × Bool} {a : α}
    (h : ∀ n, (answer n).2 = false → (answer n).1 = a) : Gives (device answer) a := by
  intro t ht
  refine h t.reads ?_
  by_contra hfail
  simp only [device, Bool.not_eq_false] at ht hfail
  rw [hfail] at ht
  simp at ht

variable {n : ℕ}

theorem always_pure {P : α → Prop} {a : α} (h : P a) : Always n P (pure a) := fun _ _ => h

theorem Always.bind {P : α → Prop} {Q : β → Prop} {m : Reading α} {f : α → Reading β}
    (hm : Always n P m) (hf : ∀ a, P a → Always n Q (f a)) : Always n Q (m >>= f) :=
  fun t ht => hf _ (hm t ht) _ (Nat.le_trans ht (m.reads_le t))

theorem always_true (m : Reading α) : Always n (fun _ => True) m := fun _ _ => trivial

def RanClean (n : ℕ) (m : Reading α) : Prop := ∃ t, n ≤ t.reads ∧ (m.run t).2.errors = t.errors

/-- A bracketed value is the one `m` gives, and no read failed. -/
theorem Gives.bracket {m : Reading α} {a : α} (hm : Gives m a) :
    Always n (fun r => ∀ x, r = some x → x = a ∧ RanClean n m) (bracket m) := by
  intro t ht x hx
  simp only [Reading.bracket] at hx
  split_ifs at hx with hclean
  rw [← Option.some.inj hx]
  exact ⟨hm t hclean, t, ht, hclean⟩

end Reading

end IzarraVM
