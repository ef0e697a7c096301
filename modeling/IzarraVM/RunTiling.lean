import Mathlib

/-! Runs of consecutive numbers, and the search for the run a number lies in. -/
namespace IzarraVM

structure Run (α : Type*) where
  first : ℕ
  last : ℕ
  tag : α

namespace Run

variable {α : Type*}

def owner (runs : List (Run α)) (x : ℕ) : Option (Run α) :=
  match (runs.takeWhile fun r => decide (r.first ≤ x)).length with
  | 0 => none
  | i+1 => runs[i]?.filter fun r => decide (x ≤ r.last)

def retag {β : Type*} (g : α → β) (r : Run α) : Run β := ⟨r.first, r.last, g r.tag⟩

end Run

end IzarraVM
