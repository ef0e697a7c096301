import Mathlib

/-! A machine stepped by a clock: its states, its edges, and the changes of an output. -/
namespace IzarraVM.ClockTrace

variable {σ : Type*}

def next (clock : σ → σ × Bool) (p : σ × ℕ) : σ × ℕ :=
  ((clock p.1).1, p.2 + (clock p.1).2.toNat)

def run (clock : σ → σ × Bool) (s : σ) : ℕ → σ × ℕ
  | 0 => (s, 0)
  | n + 1 => next clock (run clock s n)

/-- A form that takes every clock as the machine does is the machine, as far as it does. -/
theorem eq_run {clock : σ → σ × Bool} {s : σ} {f : ℕ → σ × ℕ} {bound : ℕ}
    (hzero : f 0 = (s, 0))
    (hsucc : ∀ n, n + 1 < bound → f (n + 1) = next clock (f n)) {n : ℕ} (hn : n < bound) :
    f n = run clock s n := by
  induction n with
  | zero => exact hzero
  | succ n ih => rw [hsucc n hn, ih (by omega), run]

/-- The first clock taken apart. -/
theorem run_head {clock : σ → σ × Bool} {s s' : σ} {edge : Bool} (h : clock s = (s', edge)) (n : ℕ) :
    run clock s (n + 1) = ((run clock s' n).1, edge.toNat + (run clock s' n).2) := by
  induction n with
  | zero =>
    show ((clock s).1, 0 + (clock s).2.toNat) = _
    rw [h, Nat.zero_add]
    rfl
  | succ n ih => rw [run, ih, next, Nat.add_assoc, run, next]

theorem run_of_still {clock : σ → σ × Bool} {s : σ} (h : clock s = (s, false)) (n : ℕ) :
    run clock s n = (s, 0) := by
  induction n with
  | zero => rfl
  | succ n ih =>
    rw [run, ih, next, h]
    rfl

theorem run_edges_le (clock : σ → σ × Bool) (s : σ) (n : ℕ) : (run clock s n).2 ≤ n := by
  induction n with
  | zero => exact Nat.le_refl 0
  | succ n ih =>
    have hedge := Bool.toNat_le (clock (run clock s n).1).2
    show (run clock s n).2 + _ ≤ n + 1
    omega

def changes (level : ℕ → Bool) : ℕ → List (ℕ × Bool)
  | 0 => []
  | n + 1 => changes level n ++ if level (n + 1) = level n then [] else [(n + 1, level (n + 1))]

theorem changes_congr {level level' : ℕ → Bool} {n : ℕ} (h : ∀ t ≤ n, level t = level' t) :
    changes level n = changes level' n := by
  induction n with
  | zero => rfl
  | succ n ih =>
    rw [changes, changes, ih fun t ht => h t (by omega), h (n + 1) (Nat.le_refl _),
      h n (Nat.le_succ n)]

variable {level : ℕ → Bool}

/-- A level that holds from `a` to `b` adds nothing. -/
theorem changes_of_hold {a b : ℕ} (hab : a ≤ b) {l : Bool}
    (hold : ∀ t, a ≤ t → t ≤ b → level t = l) : changes level b = changes level a := by
  induction b with
  | zero => rw [Nat.le_zero.mp hab]
  | succ b ih =>
    by_cases heq : a = b + 1
    · rw [heq]
    · rw [changes, if_pos, List.append_nil]
      · exact ih (by omega) fun t ha hb => hold t ha (by omega)
      · rw [hold (b + 1) hab (Nat.le_refl _), hold b (by omega) (Nat.le_succ b)]

/-- A level that holds from `a` on and changes at `b`. -/
theorem changes_of_change {a b : ℕ} (hab : a < b) {l : Bool}
    (hold : ∀ t, a ≤ t → t < b → level t = l) (hchange : level b = !l) :
    changes level b = changes level a ++ [(b, !l)] := by
  obtain ⟨m, rfl⟩ : ∃ m, b = m + 1 := ⟨b - 1, by omega⟩
  have hlast := hold m (by omega) (Nat.lt_succ_self m)
  rw [changes, if_neg, hchange, changes_of_hold (Nat.le_of_lt_succ hab)]
  · exact fun t ha hb => hold t ha (by omega)
  · rw [hchange, hlast]
    cases l <;> decide

section Offset

variable {offset a b : ℕ} {l : Bool}

/-- The two rules with their clocks counted from an offset. -/
theorem changes_of_hold_from (hab : a ≤ b)
    (hold : ∀ t, a ≤ t → t ≤ b → level (offset + t) = l) :
    changes level (offset + b) = changes level (offset + a) := by
  apply changes_of_hold (Nat.add_le_add_left hab offset)
  intro t ha hb
  obtain ⟨t, rfl⟩ := Nat.exists_eq_add_of_le (Nat.le_of_add_right_le ha)
  exact hold t (by omega) (by omega)

theorem changes_of_change_from (hab : a < b)
    (hold : ∀ t, a ≤ t → t < b → level (offset + t) = l) (hchange : level (offset + b) = !l) :
    changes level (offset + b) = changes level (offset + a) ++ [(offset + b, !l)] := by
  refine changes_of_change (Nat.add_lt_add_left hab offset) (fun t ha hb => ?_) hchange
  obtain ⟨t, rfl⟩ := Nat.exists_eq_add_of_le (Nat.le_of_add_right_le ha)
  exact hold t (by omega) (by omega)

/-- A level that is low for the last time. -/
theorem changes_rise_from (hab : a + 1 = b) (hlow : level (offset + a) = false)
    (hhigh : level (offset + b) = true) :
    changes level (offset + b) = changes level (offset + a) ++ [(offset + b, true)] := by
  subst hab
  rw [← Nat.add_assoc, changes, Nat.add_assoc, hhigh, hlow]
  rfl

variable {start n : ℕ}

/-- A level that is low at the clock `start` alone. -/
theorem changes_pulse_from (hpos : 0 < start)
    (h : ∀ t ≤ n, level (offset + t) = decide (t ≠ start)) :
    changes level (offset + n) = changes level offset ++
      ((if start ≤ n then [(offset + start, false)] else []) ++
        if start < n then [(offset + start + 1, true)] else []) := by
  have hhigh (t : ℕ) (ht : t ≤ n) (hne : t ≠ start) : level (offset + t) = true := by
    rw [h t ht, decide_eq_true hne]
  by_cases hfall : start ≤ n
  · have hlow : level (offset + start) = false := by
      rw [h start hfall, decide_eq_false (by omega)]
    have hfirst : changes level (offset + start) =
        changes level offset ++ [(offset + start, false)] :=
      changes_of_change_from (a := 0) (l := true) hpos (fun t _ ht => hhigh t (by omega) (by omega)) hlow
    rw [if_pos hfall, ← List.append_assoc, ← hfirst]
    split_ifs with hpast
    · rw [Nat.add_assoc, ← changes_rise_from rfl hlow (hhigh (start + 1) hpast (by omega))]
      exact changes_of_hold_from hpast fun t ha hb => hhigh t hb (by omega)
    · rw [List.append_nil, show n = start by omega]
  · rw [if_neg hfall, if_neg (by omega), List.append_nil, List.append_nil]
    exact changes_of_hold_from (a := 0) (Nat.zero_le n) fun t _ ht => hhigh t ht (by omega)

/-- A level that rises at the clock `start` for good. -/
theorem changes_step_from (hpos : 0 < start)
    (h : ∀ t ≤ n, level (offset + t) = decide (start ≤ t)) :
    changes level (offset + n) =
      changes level offset ++ if start ≤ n then [(offset + start, true)] else [] := by
  have hlow (t : ℕ) (ht : t ≤ n) (hlt : t < start) : level (offset + t) = false := by
    rw [h t ht, decide_eq_false (by omega)]
  have hhigh (t : ℕ) (ht : t ≤ n) (hle : start ≤ t) : level (offset + t) = true := by
    rw [h t ht, decide_eq_true hle]
  split_ifs with hrise
  · rw [changes_of_hold_from hrise fun t ha hb => hhigh t hb ha]
    exact changes_of_change_from (a := 0) hpos (fun t _ ht => hlow t (by omega) ht)
      (hhigh start hrise (Nat.le_refl _))
  · rw [List.append_nil]
    exact changes_of_hold_from (a := 0) (Nat.zero_le n) fun t _ ht => hlow t ht (by omega)

end Offset

def pulse (start n : ℕ) : List (ℕ × Bool) :=
  (if start ≤ n then [(start, false)] else []) ++ if start + 1 ≤ n then [(start + 1, true)] else []

theorem pulse_of_lt {start n : ℕ} (h : start < n) :
    pulse start n = [(start, false), (start + 1, true)] := by
  rw [pulse, if_pos (Nat.le_of_lt h), if_pos (Nat.succ_le_of_lt h)]
  rfl

theorem changes_pulse {start n : ℕ} (hpos : 0 < start)
    (h : ∀ t ≤ n, level t = decide (t ≠ start)) : changes level n = pulse start n := by
  have hfrom (t : ℕ) (ht : t ≤ n) : level (0 + t) = decide (t ≠ start) := by rw [Nat.zero_add, h t ht]
  have hpulse := changes_pulse_from hpos hfrom
  rw [Nat.zero_add, Nat.zero_add] at hpulse
  exact hpulse

theorem changes_rise {start n : ℕ} (hpos : 0 < start)
    (h : ∀ t ≤ n, level t = decide (start ≤ t)) :
    changes level n = if start ≤ n then [(start, true)] else [] := by
  have hfrom (t : ℕ) (ht : t ≤ n) : level (0 + t) = decide (start ≤ t) := by rw [Nat.zero_add, h t ht]
  have hrise := changes_step_from hpos hfrom
  rw [Nat.zero_add, Nat.zero_add] at hrise
  exact hrise

end IzarraVM.ClockTrace
