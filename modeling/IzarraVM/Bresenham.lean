import Mathlib

/-! The integer line walk: `a` columns and `b` rows, stepped by an error term kept near zero. -/
namespace IzarraVM.Bresenham

structure Walk (a b i j err : ℤ) : Prop where
  err_eq : err = a * (1 + j) - b * (1 + i)
  i_nonneg : 0 ≤ i
  i_le : i ≤ a
  j_nonneg : 0 ≤ j
  j_le : j ≤ b
  wide : b ≤ a → -b ≤ 2 * err ∧ 2 * err ≤ 3 * a - 2 * b
  tall : a ≤ b → 2 * a - 3 * b ≤ 2 * err ∧ 2 * err ≤ a

variable {a b i j err : ℤ}

theorem Walk.start (ha : 0 ≤ a) (hb : 0 ≤ b) : Walk a b 0 0 (a - b) where
  err_eq := by ring
  i_nonneg := Int.le_refl 0
  i_le := ha
  j_nonneg := Int.le_refl 0
  j_le := hb
  wide h := by omega
  tall h := by omega

variable (h : Walk a b i j err)
include h

/-- Columns and rows exchanged. -/
theorem Walk.swap : Walk b a j i (-err) where
  err_eq := by rw [h.err_eq]; ring
  i_nonneg := h.j_nonneg
  i_le := h.j_le
  j_nonneg := h.i_nonneg
  j_le := h.i_le
  wide hle := by
    have htall := h.tall hle
    omega
  tall hle := by
    have hwide := h.wide hle
    omega

/-- A walk with at least as many columns as rows takes a column in every step until it is done. -/
theorem Walk.column_left (hwide : b ≤ a) (hopen : ¬ (i = a ∧ j = b)) : i < a := by
  by_contra hlast
  have hi : i = a := by
    have := h.i_le
    omega
  have hj : j + 1 ≤ b := by
    have hne : j ≠ b := fun hj => hopen ⟨hi, hj⟩
    have := h.j_le
    omega
  have hprod : a * (1 + j) ≤ a * b := mul_le_mul_of_nonneg_left (by omega) (by have := h.i_nonneg; omega)
  have herr := h.err_eq
  have hlow := (h.wide hwide).1
  have hj0 := h.j_nonneg
  rw [hi] at herr
  nlinarith

/-- The rows do not run out before the columns do. -/
theorem Walk.row_left (hcolumn : i < a) (hstep : 2 * err ≤ a) : j < b := by
  by_contra hlast
  have hj : j = b := by
    have := h.j_le
    omega
  have hprod : b * (1 + i) ≤ b * a := by
    refine mul_le_mul_of_nonneg_left (by omega) ?_
    have := h.j_nonneg
    omega
  have herr := h.err_eq
  have hi0 := h.i_nonneg
  rw [hj] at herr
  nlinarith

/-- The step of the error term and of the two counts, in a walk with at least as many columns as
rows. -/
theorem Walk.step_wide (hwide : b ≤ a) (hopen : ¬ (i = a ∧ j = b)) : -b ≤ 2 * err ∧
      i + 1 ≤ a ∧ (if 2 * err ≤ a then j + 1 else j) ≤ b ∧
      -b ≤ 2 * (err - b + if 2 * err ≤ a then a else 0) ∧
      2 * (err - b + if 2 * err ≤ a then a else 0) ≤ 3 * a - 2 * b := by
  have hcolumn := h.column_left hwide hopen
  obtain ⟨hlow, hhigh⟩ := h.wide hwide
  have hj0 := h.j_nonneg
  have hjb := h.j_le
  refine ⟨hlow, by omega, ?_, ?_, ?_⟩
  · split_ifs with hstep
    · have := h.row_left hcolumn hstep
      omega
    · exact hjb
  · split_ifs <;> omega
  · split_ifs <;> omega

/-- One step of the walk. -/
theorem Walk.next (hopen : ¬ (i = a ∧ j = b)) :
    Walk a b (if -b ≤ 2 * err then i + 1 else i) (if 2 * err ≤ a then j + 1 else j)
      (err + (if -b ≤ 2 * err then -b else 0) + if 2 * err ≤ a then a else 0) := by
  have hi0 := h.i_nonneg
  have hj0 := h.j_nonneg
  -- the error term follows the counts, whichever of them move
  have herr : err + (if -b ≤ 2 * err then -b else 0) + (if 2 * err ≤ a then a else 0) =
      a * (1 + if 2 * err ≤ a then j + 1 else j) - b * (1 + if -b ≤ 2 * err then i + 1 else i) := by
    have heq := h.err_eq
    split_ifs <;> linarith
  -- the two bounds, for the larger side and by exchange for the smaller
  have hwide : b ≤ a → -b ≤ 2 * err ∧ i + 1 ≤ a ∧ (if 2 * err ≤ a then j + 1 else j) ≤ b ∧
      -b ≤ 2 * (err - b + if 2 * err ≤ a then a else 0) ∧
      2 * (err - b + if 2 * err ≤ a then a else 0) ≤ 3 * a - 2 * b :=
    fun hle => h.step_wide hle hopen
  have htall : a ≤ b → -a ≤ 2 * -err ∧ j + 1 ≤ b ∧ (if 2 * -err ≤ b then i + 1 else i) ≤ a ∧
      -a ≤ 2 * (-err - a + if 2 * -err ≤ b then b else 0) ∧
      2 * (-err - a + if 2 * -err ≤ b then b else 0) ≤ 3 * b - 2 * a :=
    fun hle => h.swap.step_wide hle fun ⟨hj, hi⟩ => hopen ⟨hi, hj⟩
  have hflip : (2 * -err ≤ b) ↔ (-b ≤ 2 * err) := by omega
  simp only [hflip] at htall
  constructor
  · exact herr
  · split_ifs <;> omega
  · rcases Int.le_total b a with hle | hle
    · obtain ⟨-, hi, -⟩ := hwide hle
      split_ifs <;> omega
    · exact (htall hle).2.2.1
  · split_ifs <;> omega
  · rcases Int.le_total b a with hle | hle
    · exact (hwide hle).2.2.1
    · obtain ⟨-, hj, -⟩ := htall hle
      split_ifs <;> omega
  · intro hle
    obtain ⟨hstep, -, -, hlow, hhigh⟩ := hwide hle
    rw [if_pos hstep]
    constructor <;> omega
  · intro hle
    obtain ⟨hstep, -, -, hlow, hhigh⟩ := htall hle
    rw [if_pos (show 2 * err ≤ a by omega)]
    split_ifs at * <;> constructor <;> omega

def Near (a b i j : ℤ) : Prop := -a ≤ 2 * (a * j - b * i) ∧ 2 * (a * j - b * i) ≤ a

/-- In a walk with at least as many columns as rows the row is moved exactly when the next one is no
further from the line. -/
theorem Walk.near_next (hwide : b ≤ a) (hnear : Near a b i j) :
    Near a b (i + 1) (if 2 * err ≤ a then j + 1 else j) := by
  obtain ⟨hlow, hhigh⟩ := hnear
  have heq := h.err_eq
  have hb : 0 ≤ b := h.j_nonneg.trans h.j_le
  unfold Near
  split_ifs with hstep
  · constructor <;> linarith
  · constructor <;> linarith

end IzarraVM.Bresenham
