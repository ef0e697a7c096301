import Mathlib

/-! Machines with countdowns: a span taken in pieces is the span taken at once. -/
namespace IzarraVM

structure Countdown (σ : Type) where
  next : σ → Option ℕ
  elapse : ℕ → σ → σ
  fire : σ → σ

namespace Countdown

variable {σ : Type} (c : Countdown σ)

def loop : ℕ → ℕ → σ → σ
  | 0, _, s => s
  | turns + 1, remaining, s =>
    if remaining = 0 then s
    else
      match c.next s with
      | none => s
      | some next =>
        if remaining < next then c.elapse remaining s
        else loop turns (remaining - next) (c.fire (c.elapse next s))

/-- Every turn takes a tick, so a span has no more turns than ticks. -/
def advance (ticks : ℕ) (s : σ) : σ := c.loop ticks ticks s

structure Lawful (P : σ → Prop) : Prop where
  pos : ∀ s t, P s → c.next s = some t → 0 < t
  next_elapse : ∀ s t n, P s → c.next s = some t → n < t → c.next (c.elapse n s) = some (t - n)
  elapse_elapse : ∀ s a b, c.elapse b (c.elapse a s) = c.elapse (a + b) s
  elapse : ∀ s t n, P s → c.next s = some t → n < t → P (c.elapse n s)
  fire : ∀ s t, P s → c.next s = some t → P (c.fire (c.elapse t s))

@[simp] theorem advance_zero (s : σ) : c.advance 0 s = s := rfl

theorem advance_of_none {s : σ} (h : c.next s = none) (ticks : ℕ) : c.advance ticks s = s := by
  cases ticks with
  | zero => rfl
  | succ ticks => simp [advance, loop, h]

theorem advance_of_lt {s : σ} {t ticks : ℕ} (h : c.next s = some t) (hpos : 0 < ticks)
    (hlt : ticks < t) : c.advance ticks s = c.elapse ticks s := by
  obtain ⟨n, rfl⟩ : ∃ n, ticks = n + 1 := ⟨ticks - 1, by omega⟩
  rw [advance, loop, if_neg (by omega), h]
  exact if_pos hlt

/-- A machine seen through a map that its next end, its passing of time and its firing go through. -/
theorem advance_map {τ : Type} {c' : Countdown τ} (φ : σ → τ) (hnext : ∀ s, c'.next (φ s) = c.next s)
    (helapse : ∀ n s, φ (c.elapse n s) = c'.elapse n (φ s))
    (hfire : ∀ s, φ (c.fire s) = c'.fire (φ s)) (ticks : ℕ) (s : σ) :
    φ (c.advance ticks s) = c'.advance ticks (φ s) := by
  have hloop : ∀ turns remaining s,
      φ (c.loop turns remaining s) = c'.loop turns remaining (φ s) := by
    intro turns
    induction turns with
    | zero =>
      intro remaining s
      rfl
    | succ turns ih =>
      intro remaining s
      rw [loop, loop, hnext]
      split_ifs
      · rfl
      · cases c.next s with
        | none => rfl
        | some next =>
          dsimp only
          split_ifs
          · exact helapse remaining s
          · rw [ih, hfire, helapse]
  exact hloop ticks ticks s

variable {c} {P : σ → Prop} (hc : c.Lawful P)
include hc

/-- Any number of turns that is not less than the ticks gives the same state. -/
theorem Lawful.loop_eq (turns : ℕ) : ∀ {turns' ticks : ℕ} {s : σ}, P s → ticks ≤ turns →
    ticks ≤ turns' → c.loop turns ticks s = c.loop turns' ticks s := by
  induction turns with
  | zero =>
    intro turns' ticks s _ hle _
    obtain rfl : ticks = 0 := by omega
    cases turns' with
    | zero => rfl
    | succ turns' =>
      rw [loop, loop]
      exact (if_pos rfl).symm
  | succ turns ih =>
    intro turns' ticks s hP hle hle'
    by_cases hzero : ticks = 0
    · subst hzero
      cases turns' with
      | zero =>
        rw [loop, loop]
        exact if_pos rfl
      | succ turns' => rw [loop, loop, if_pos rfl, if_pos rfl]
    · obtain ⟨turns', rfl⟩ : ∃ k, turns' = k + 1 := ⟨turns' - 1, by omega⟩
      rw [loop, loop, if_neg hzero, if_neg hzero]
      cases hnext : c.next s with
      | none => rfl
      | some next =>
        have hpos := hc.pos s next hP hnext
        dsimp only
        split_ifs
        · rfl
        · exact ih (hc.fire s next hP hnext) (by omega) (by omega)

/-- A span that reaches the end of a countdown. -/
theorem Lawful.advance_of_le {s : σ} {t ticks : ℕ} (hP : P s) (h : c.next s = some t)
    (hle : t ≤ ticks) : c.advance ticks s = c.advance (ticks - t) (c.fire (c.elapse t s)) := by
  have hpos := hc.pos s t hP h
  obtain ⟨n, rfl⟩ : ∃ n, ticks = n + 1 := ⟨ticks - 1, by omega⟩
  rw [advance, loop, if_neg (by omega), h]
  dsimp only
  rw [if_neg (by omega)]
  exact hc.loop_eq n (hc.fire s t hP h) (by omega) (Nat.le_refl _)

/-- The laws hold of any part of the states that passing time and firing stay in. -/
theorem Lawful.and {Q : σ → Prop} (helapse : ∀ s n, Q s → Q (c.elapse n s))
    (hfire : ∀ s, Q s → Q (c.fire s)) : c.Lawful fun s => P s ∧ Q s where
  pos s t h := hc.pos s t h.1
  next_elapse s t n h := hc.next_elapse s t n h.1
  elapse_elapse := hc.elapse_elapse
  elapse s t n h hnext hlt := ⟨hc.elapse s t n h.1 hnext hlt, helapse s n h.2⟩
  fire s t h hnext := ⟨hc.fire s t h.1 hnext, hfire _ (helapse s t h.2)⟩

theorem Lawful.advance_keep (ticks : ℕ) : ∀ {s : σ}, P s → P (c.advance ticks s) := by
  induction ticks using Nat.strongRecOn with
  | ind ticks ih =>
    intro s hP
    cases hnext : c.next s with
    | none =>
      rw [c.advance_of_none hnext]
      exact hP
    | some t =>
      have hpos := hc.pos s t hP hnext
      by_cases hle : t ≤ ticks
      · rw [hc.advance_of_le hP hnext hle]
        exact ih (ticks - t) (by omega) (hc.fire s t hP hnext)
      · by_cases hzero : ticks = 0
        · rw [hzero]
          exact hP
        · rw [c.advance_of_lt hnext (by omega) (by omega)]
          exact hc.elapse s t ticks hP hnext (by omega)

/-- Two spans one after the other are the span of their sum. -/
theorem Lawful.advance_add (a : ℕ) : ∀ (b : ℕ) {s : σ}, P s →
    c.advance (a + b) s = c.advance b (c.advance a s) := by
  induction a using Nat.strongRecOn with
  | ind a ih =>
    intro b s hP
    cases hnext : c.next s with
    | none =>
      rw [c.advance_of_none hnext, c.advance_of_none hnext, c.advance_of_none hnext]
    | some t =>
      have hpos := hc.pos s t hP hnext
      by_cases hdue : t ≤ a
      · -- the countdown ends in the first span
        have hrest : a + b - t = a - t + b := by omega
        rw [hc.advance_of_le hP hnext (by omega), hc.advance_of_le hP hnext hdue, hrest]
        exact ih (a - t) (by omega) b (hc.fire s t hP hnext)
      by_cases hzero : a = 0
      · subst hzero
        rw [Nat.zero_add, advance_zero]
      have hearly : a < t := by omega
      have hnow := hc.next_elapse s t a hP hnext hearly
      have hP' := hc.elapse s t a hP hnext hearly
      rw [c.advance_of_lt hnext (by omega) hearly]
      by_cases hlate : t ≤ a + b
      · -- the countdown ends in the second
        have hrest : a + b - t = b - (t - a) := by omega
        have hsum : a + (t - a) = t := by omega
        rw [hc.advance_of_le hP hnext hlate, hc.advance_of_le hP' hnow (by omega),
          hc.elapse_elapse, hsum, hrest]
      by_cases hb : b = 0
      · subst hb
        rw [Nat.add_zero, advance_zero, c.advance_of_lt hnext (by omega) hearly]
      · rw [c.advance_of_lt hnext (by omega) (by omega),
          c.advance_of_lt hnow (by omega) (by omega), hc.elapse_elapse]

/-- One tick more. -/
theorem Lawful.advance_succ (n : ℕ) {s : σ} (hP : P s) :
    c.advance (n + 1) s = c.advance 1 (c.advance n s) := hc.advance_add n 1 hP

end Countdown

end IzarraVM
