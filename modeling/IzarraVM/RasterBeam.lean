import Mathlib

/-! A beam over lines of dots, and the first time that something happens on its way. -/
namespace IzarraVM.Raster

def line (width lines p : ℕ) : ℕ := p / width % lines

def dot (width p : ℕ) : ℕ := p % width

variable {width lines : ℕ}

theorem line_add_frames (p q : ℕ) (hwidth : 0 < width) :
    line width lines (p + width * lines * q) = line width lines p := by
  unfold line
  rw [Nat.mul_assoc, Nat.add_mul_div_left _ _ hwidth, Nat.add_mul_mod_self_left]

theorem dot_add_frames (p q : ℕ) : dot width (p + width * lines * q) = dot width p := by
  unfold dot
  rw [Nat.mul_assoc, Nat.add_mul_mod_self_left]

/-- Only the position inside the frame matters for what comes later. -/
theorem line_mod_frame (p k : ℕ) (hwidth : 0 < width) :
    line width lines (p % (width * lines) + k) = line width lines (p + k) := by
  have hsplit : p + k = p % (width * lines) + k + width * lines * (p / (width * lines)) := by
    have hdiv := Nat.mod_add_div p (width * lines)
    omega
  rw [hsplit, line_add_frames _ _ hwidth]

theorem dot_mod_frame (p k : ℕ) :
    dot width (p % (width * lines) + k) = dot width (p + k) := by
  have hsplit : p + k = p % (width * lines) + k + width * lines * (p / (width * lines)) := by
    have hdiv := Nat.mod_add_div p (width * lines)
    omega
  rw [hsplit, dot_add_frames]

theorem line_of_lt {p : ℕ} (h : p < width * lines) : line width lines p = p / width := by
  unfold line
  exact Nat.mod_eq_of_lt (Nat.div_lt_of_lt_mul h)

theorem line_lt_iff {p a : ℕ} (hwidth : 0 < width) (h : p < width * lines) :
    line width lines p < a ↔ p < a * width := by
  rw [line_of_lt h, Nat.div_lt_iff_lt_mul hwidth]

theorem le_line_iff {p a : ℕ} (hwidth : 0 < width) (h : p < width * lines) :
    a ≤ line width lines p ↔ a * width ≤ p := by
  rw [line_of_lt h, Nat.le_div_iff_mul_le hwidth]

/-- In the next frame. -/
theorem line_next_frame (p : ℕ) (hwidth : 0 < width) :
    line width lines (width * lines + p) = line width lines p := by
  have hframe := @line_add_frames width lines p 1 hwidth
  rw [Nat.mul_one, Nat.add_comm] at hframe
  exact hframe

theorem dot_next_frame (p : ℕ) : dot width (width * lines + p) = dot width p := by
  have hframe := @dot_add_frames width lines p 1
  rw [Nat.mul_one, Nat.add_comm] at hframe
  exact hframe

/-- What repeats with the frame, over a frame and the next one. -/
theorem two_frames {P Q : ℕ → Prop} {frame : ℕ} (hnext : ∀ p, P (frame + p) ↔ P p)
    (hin : ∀ p < frame, (P p ↔ Q p)) (p : ℕ) (hp : p < frame + frame) :
    P p ↔ p < frame ∧ Q p ∨ frame ≤ p ∧ Q (p - frame) := by
  rcases Nat.lt_or_ge p frame with hlt | hge
  · rw [hin p hlt]
    simp [hlt, Nat.not_le.mpr hlt]
  · obtain ⟨q, rfl⟩ := Nat.exists_eq_add_of_le hge
    rw [hnext, hin q (by omega), Nat.add_sub_cancel_left]
    simp

/-- Dots later on the same line. -/
theorem dot_add_of_lt {p k : ℕ} (h : dot width p + k < width) : dot width (p + k) = dot width p + k := by
  unfold dot at *
  rw [Nat.add_mod, Nat.mod_eq_of_lt (show k < width by omega), Nat.mod_eq_of_lt h]

theorem line_add_of_lt {p k : ℕ} (h : dot width p + k < width) :
    line width lines (p + k) = line width lines p := by
  have hwidth : 0 < width := by omega
  have hdiv : (p + k) / width = p / width := by
    have hp := Nat.mod_add_div p width
    unfold dot at h
    have hsum : p + k = p % width + k + width * (p / width) := by omega
    rw [hsum, Nat.add_mul_div_left _ _ hwidth, Nat.div_eq_of_lt h, Nat.zero_add]
  unfold line
  rw [hdiv]

/-- The first dot of the next line. -/
theorem next_line (p : ℕ) (hwidth : 0 < width) :
    dot width (p + (width - dot width p)) = 0 ∧
      (p + (width - dot width p)) / width = p / width + 1 := by
  have hp := Nat.mod_add_div p width
  have hlt : p % width < width := Nat.mod_lt _ hwidth
  have hsum : p + (width - p % width) = width * (p / width + 1) := by
    rw [Nat.mul_succ]
    omega
  unfold dot
  rw [hsum]
  exact ⟨Nat.mul_mod_right _ _, Nat.mul_div_cancel_left _ hwidth⟩

def untilEdge (frame b edge : ℕ) : ℕ := if b < edge then edge - b else frame - b + edge

/-- An edge lies ahead in the frame, or in the next one. -/
theorem add_untilEdge {frame b : ℕ} (edge : ℕ) (hb : b < frame) :
    (b < edge ∧ b + untilEdge frame b edge = edge) ∨
      (edge ≤ b ∧ b + untilEdge frame b edge = frame + edge) := by
  unfold untilEdge
  split_ifs <;> omega

def FirstAt (P : ℕ → Prop) (n : ℕ) : Prop := (∀ k < n, ¬ P k) ∧ P n

theorem FirstAt.unique {P : ℕ → Prop} {m n : ℕ} (hm : FirstAt P m) (hn : FirstAt P n) : m = n := by
  rcases Nat.lt_trichotomy m n with hlt | heq | hgt
  · exact absurd hm.2 (hn.1 m hlt)
  · exact heq
  · exact absurd hn.2 (hm.1 n hgt)

end IzarraVM.Raster
