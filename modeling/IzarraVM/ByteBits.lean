import Mathlib

/-! Registers as sets of bits, by the masks that a program tests and sets them with. -/
namespace IzarraVM

variable {w : ℕ}

def hasBit (v : BitVec w) (i : ℕ) : Bool := v &&& (1#w <<< i) ≠ 0#w

def setBit (v : BitVec w) (i : ℕ) : BitVec w := v ||| (1#w <<< i)

def clearBit (v : BitVec w) (i : ℕ) : BitVec w := v &&& ~~~(1#w <<< i)

theorem getLsbD_mask {i : ℕ} (hi : i < w) (j : ℕ) :
    (1#w <<< i).getLsbD j = decide (j = i) := by
  rw [← BitVec.twoPow_eq, BitVec.getLsbD_twoPow]
  simp [hi, eq_comm]

theorem hasBit_eq {i : ℕ} (hi : i < w) (v : BitVec w) : hasBit v i = v.getLsbD i := by
  cases hbit : v.getLsbD i with
  | true =>
    refine decide_eq_true fun hzero => ?_
    have hat := congrArg (fun x : BitVec w => x.getLsbD i) hzero
    simp only [BitVec.getLsbD_and, getLsbD_mask hi, hbit] at hat
    simp at hat
  | false =>
    refine decide_eq_false (not_not.mpr (BitVec.eq_of_getLsbD_eq fun j hj => ?_))
    rw [BitVec.getLsbD_and, getLsbD_mask hi]
    by_cases h : j = i
    · subst h
      simp [hbit]
    · simp [h]

theorem hasBit_setBit {i j : ℕ} (hi : i < w) (hj : j < w) (v : BitVec w) :
    hasBit (setBit v i) j = (hasBit v j || decide (j = i)) := by
  rw [hasBit_eq hj, hasBit_eq hj, setBit, BitVec.getLsbD_or, getLsbD_mask hi]

theorem hasBit_clearBit {i j : ℕ} (hi : i < w) (hj : j < w) (v : BitVec w) :
    hasBit (clearBit v i) j = (hasBit v j && decide (j ≠ i)) := by
  rw [hasBit_eq hj, hasBit_eq hj, clearBit, BitVec.getLsbD_and, BitVec.getLsbD_not, getLsbD_mask hi]
  simp [hj]

theorem hasBit_andNot {j : ℕ} (hj : j < w) (v m : BitVec w) :
    hasBit (v &&& ~~~m) j = (hasBit v j && !hasBit m j) := by
  rw [hasBit_eq hj, hasBit_eq hj, hasBit_eq hj, BitVec.getLsbD_and, BitVec.getLsbD_not]
  simp [hj]

@[simp] theorem hasBit_zero (i : ℕ) : hasBit (0#w) i = false := by simp [hasBit]

end IzarraVM
