import Mathlib

/-! The bounds of the small index types. Lean finds each of them too, with a proof of its own in every
module; under one name the definitions of all modules hold the same term. -/
namespace IzarraVM

instance neZeroTwo : NeZero 2 := ⟨by decide⟩

instance neZeroFour : NeZero 4 := ⟨by decide⟩

instance neZeroEight : NeZero 8 := ⟨by decide⟩

instance neZeroSixtyFour : NeZero 64 := ⟨by decide⟩

end IzarraVM
