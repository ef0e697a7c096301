import IzarraVM.MachineWords

/-! A device clock in whole events; what is left over is carried to the next advance. -/
namespace IzarraVM.Timeline

def masterClockHz : ℕ := 5478000000

structure RatePhase (clock : ℕ) where
  remainder : ℕ
  lt : remainder < clock

namespace RatePhase

variable {clock : ℕ} (p : RatePhase clock)

theorem clock_pos (p : RatePhase clock) : 0 < clock := Nat.lt_of_le_of_lt (Nat.zero_le _) p.lt

theorem ext_remainder {p q : RatePhase clock} (h : p.remainder = q.remainder) : p = q := by
  cases p
  cases q
  cases h
  rfl

def leftover (total : ℕ) : RatePhase clock := ⟨total % clock, Nat.mod_lt _ p.clock_pos⟩

variable (masterTicks rateHz : ℕ)

def advanceNarrow : Option (ℕ × RatePhase clock) :=
  (checkedMul64 masterTicks rateHz).bind fun scaled =>
    (checkedAdd64 scaled p.remainder).map fun total => (total / clock, p.leftover total)

def advanceWide : ℕ × RatePhase clock :=
  let total := p.remainder + masterTicks * rateHz
  (saturatingU64 (total / clock), p.leftover total)

def advance : ℕ × RatePhase clock :=
  match p.advanceNarrow masterTicks rateHz with
  | some result => result
  | none => p.advanceWide masterTicks rateHz

def ticksUntil (events rateHz : ℕ) : Option ℕ :=
  if events = 0 then some 0
  else if rateHz = 0 then none
  else
    match checkedMul64 events clock with
    | some scaled => some ((scaled - p.remainder) ⌈/⌉ rateHz)
    | none => some (saturatingU64 ((events * clock - p.remainder) ⌈/⌉ rateHz))

def advanceAll (rateHz : ℕ) : List ℕ → RatePhase clock → ℕ × RatePhase clock
  | [], p => (0, p)
  | span :: rest, p =>
    let first := p.advance span rateHz
    let later := advanceAll rateHz rest first.2
    (first.1 + later.1, later.2)

def exact : ℕ := (p.remainder + masterTicks * rateHz) / clock

theorem advanceNarrow_eq_wide {masterTicks rateHz : ℕ} {result : ℕ × RatePhase clock}
    (h : p.advanceNarrow masterTicks rateHz = some result) :
    result = p.advanceWide masterTicks rateHz := by
  unfold advanceNarrow checkedMul64 checkedAdd64 at h
  split_ifs at h with hmul
  · rw [Option.bind_some] at h
    split_ifs at h with hadd
    · have htotal : p.remainder + masterTicks * rateHz = masterTicks * rateHz + p.remainder :=
        Nat.add_comm _ _
      have hfits : (masterTicks * rateHz + p.remainder) / clock < 2 ^ 64 :=
        Nat.lt_of_le_of_lt (Nat.div_le_self _ _) hadd
      rw [Option.map_some, Option.some.injEq] at h
      rw [← h, advanceWide, htotal]
      simp only [saturatingU64_eq hfits]
    · cases h
  · cases h

/-- Both arms count the same. -/
theorem advance_eq_wide :
    p.advance masterTicks rateHz = p.advanceWide masterTicks rateHz := by
  unfold advance
  cases h : p.advanceNarrow masterTicks rateHz with
  | some result => exact p.advanceNarrow_eq_wide h
  | none => rfl

theorem advance_count :
    (p.advance masterTicks rateHz).1 = saturatingU64 (p.exact masterTicks rateHz) := by
  rw [advance_eq_wide]
  rfl

theorem advance_remainder :
    (p.advance masterTicks rateHz).2.remainder =
      (p.remainder + masterTicks * rateHz) % clock := by
  rw [advance_eq_wide]
  rfl

/-- What an advance leaves is what the span that follows it starts from. -/
theorem exact_add (a b rateHz : ℕ) :
    p.exact (a + b) rateHz = p.exact a rateHz + (p.advance a rateHz).2.exact b rateHz := by
  have hsplit : p.remainder + (a + b) * rateHz =
      (p.remainder + a * rateHz) % clock + b * rateHz +
        clock * ((p.remainder + a * rateHz) / clock) := by
    have hdiv := Nat.mod_add_div (p.remainder + a * rateHz) clock
    rw [Nat.add_mul]
    omega
  unfold exact
  rw [advance_remainder, hsplit, Nat.add_mul_div_left _ _ p.clock_pos, Nat.add_comm]

theorem remainder_add (a b rateHz : ℕ) :
    ((p.advance a rateHz).2.advance b rateHz).2 = (p.advance (a + b) rateHz).2 := by
  apply ext_remainder
  rw [advance_remainder, advance_remainder, advance_remainder, Nat.mod_add_mod, Nat.add_mul,
    Nat.add_assoc]

@[simp] theorem exact_zero (rateHz : ℕ) : p.exact 0 rateHz = 0 := by
  rw [exact, Nat.zero_mul, Nat.add_zero, Nat.div_eq_of_lt p.lt]

theorem advance_zero (rateHz : ℕ) : (p.advance 0 rateHz).2 = p := by
  apply ext_remainder
  rw [advance_remainder, Nat.zero_mul, Nat.add_zero, Nat.mod_eq_of_lt p.lt]

/-- A split ends at the phase of the whole span. -/
theorem advanceAll_phase (rateHz : ℕ) (spans : List ℕ) :
    (advanceAll rateHz spans p).2 = (p.advance spans.sum rateHz).2 := by
  induction spans generalizing p with
  | nil => exact (p.advance_zero rateHz).symm
  | cons span rest ih =>
    rw [advanceAll, List.sum_cons, ← p.remainder_add span rest.sum rateHz]
    exact ih _

/-- A split counts the events of the whole span, where their number fits 64 bits. -/
theorem advanceAll_count (rateHz : ℕ) (spans : List ℕ) (h : p.exact spans.sum rateHz < 2 ^ 64) :
    (advanceAll rateHz spans p).1 = p.exact spans.sum rateHz := by
  induction spans generalizing p with
  | nil => exact (p.exact_zero rateHz).symm
  | cons span rest ih =>
    rw [List.sum_cons, exact_add] at h ⊢
    have hfirst : (p.advance span rateHz).1 = p.exact span rateHz := by
      rw [advance_count, saturatingU64_eq (by omega)]
    rw [advanceAll, hfirst, ih _ (by omega)]

/-- The clamp does not hide whether `events` are due. -/
theorem le_advance_iff {events : ℕ} (h : events < 2 ^ 64) (masterTicks rateHz : ℕ) :
    events ≤ (p.advance masterTicks rateHz).1 ↔ events ≤ p.exact masterTicks rateHz := by
  rw [advance_count, saturatingU64, Nat.le_min]
  constructor
  · exact And.left
  · exact fun hdue => ⟨hdue, by omega⟩

def exactTicks (events rateHz : ℕ) : ℕ := (events * clock - p.remainder) ⌈/⌉ rateHz

/-- The events of a span reach `events` exactly from `exactTicks` on. -/
theorem exactTicks_le_iff {events rateHz : ℕ} (hrate : 0 < rateHz) (masterTicks : ℕ) :
    p.exactTicks events rateHz ≤ masterTicks ↔ events ≤ p.exact masterTicks rateHz := by
  rw [exactTicks, ceilDiv_le_iff_le_mul hrate, exact, Nat.le_div_iff_mul_le p.clock_pos,
    Nat.mul_comm rateHz]
  omega

theorem ticksUntil_eq {events rateHz : ℕ} (hevents : 0 < events) (hrate : 0 < rateHz) :
    ∃ t, p.ticksUntil events rateHz = some t ∧
      (p.exactTicks events rateHz < 2 ^ 64 → t = p.exactTicks events rateHz) := by
  unfold ticksUntil checkedMul64
  rw [if_neg (Nat.ne_of_gt hevents), if_neg (Nat.ne_of_gt hrate)]
  by_cases hfits : events * clock < 2 ^ 64
  · rw [if_pos hfits]
    exact ⟨_, rfl, fun _ => rfl⟩
  · rw [if_neg hfits]
    exact ⟨_, rfl, saturatingU64_eq⟩

/-- The span is the least one that gives `events` events, if any 64-bit span does. -/
theorem ticksUntil_least {events rateHz span t : ℕ} (hevents : events < 2 ^ 64)
    (hspan : span < 2 ^ 64) (hdue : events ≤ (p.advance span rateHz).1)
    (h : p.ticksUntil events rateHz = some t) :
    IsLeast {u | events ≤ (p.advance u rateHz).1} t := by
  have hiff (u : ℕ) : events ≤ (p.advance u rateHz).1 ↔ events ≤ p.exact u rateHz :=
    p.le_advance_iff hevents u rateHz
  rcases Nat.eq_zero_or_pos events with rfl | hpos
  · have ht : t = 0 := by
      rw [ticksUntil, if_pos rfl] at h
      exact (Option.some.inj h).symm
    rw [ht]
    exact ⟨Nat.zero_le _, fun u _ => Nat.zero_le u⟩
  rcases Nat.eq_zero_or_pos rateHz with rfl | hrate
  · rw [ticksUntil, if_neg (Nat.ne_of_gt hpos), if_pos rfl] at h
    cases h
  have hbound : p.exactTicks events rateHz < 2 ^ 64 := by
    have hle := (p.exactTicks_le_iff hrate span).mpr ((hiff span).mp hdue)
    omega
  obtain ⟨t', ht', heq⟩ := p.ticksUntil_eq hpos hrate
  have ht : t = p.exactTicks events rateHz := by
    rw [h] at ht'
    rw [Option.some.inj ht', heq hbound]
  refine ⟨?_, fun u hu => ?_⟩
  · exact (hiff t).mpr ((p.exactTicks_le_iff hrate t).mp (Nat.le_of_eq ht.symm))
  · rw [ht]
    exact (p.exactTicks_le_iff hrate u).mpr ((hiff u).mp hu)

theorem ticksUntil_eq_none {events rateHz : ℕ} :
    p.ticksUntil events rateHz = none ↔ 0 < events ∧ rateHz = 0 := by
  rcases Nat.eq_zero_or_pos events with rfl | hpos
  · simp [ticksUntil]
  rcases Nat.eq_zero_or_pos rateHz with rfl | hrate
  · simp [ticksUntil, hpos, Nat.ne_of_gt hpos]
  · obtain ⟨t, ht, -⟩ := p.ticksUntil_eq hpos hrate
    rw [ht]
    simp [Nat.ne_of_gt hrate]

/-- A device clock neither drifts nor misses: however a span is split, the phase ends where one
advance over the whole span leaves it and, unless their number is clamped to 64 bits, the events
are those of the whole span; the arms agree; and `ticksUntil` is the least span that gives
`events` events, if any does. -/
theorem advance_drift_free (rateHz : ℕ) (spans : List ℕ) :
    (advanceAll rateHz spans p).2 = (p.advance spans.sum rateHz).2 ∧
      (advanceAll rateHz spans p).2.remainder < clock ∧
      ((p.remainder + spans.sum * rateHz) / clock < 2 ^ 64 →
        (advanceAll rateHz spans p).1 = (p.advance spans.sum rateHz).1) ∧
      (∀ ticks result, p.advanceNarrow ticks rateHz = some result →
        result = p.advanceWide ticks rateHz) ∧
      ∀ events < 2 ^ 64,
        (p.ticksUntil events rateHz = none ↔ 0 < events ∧ rateHz = 0) ∧
        ∀ t, p.ticksUntil events rateHz = some t →
          (∃ span < 2 ^ 64, events ≤ (p.advance span rateHz).1) →
          IsLeast {u | events ≤ (p.advance u rateHz).1} t := by
  refine ⟨p.advanceAll_phase rateHz spans, (advanceAll rateHz spans p).2.lt, ?_, ?_, ?_⟩
  · intro hfits
    rw [p.advanceAll_count rateHz spans hfits, advance_count]
    exact (saturatingU64_eq hfits).symm
  · exact fun ticks result h => p.advanceNarrow_eq_wide h
  · intro events hevents
    refine ⟨p.ticksUntil_eq_none, ?_⟩
    rintro t ht ⟨span, hspan, hdue⟩
    exact p.ticksUntil_least hevents hspan hdue ht

/-- Two half seconds of the timer input are one second of it. -/
theorem half_seconds_drift_free :
    let p : RatePhase masterClockHz := ⟨0, by decide⟩
    (advanceAll 1193182 [2739000000, 2739000000] p).1 = 1193182 ∧
      (advanceAll 1193182 [2739000000, 2739000000] p).2.remainder = 0 := by
  intro p
  have h := p.advance_drift_free 1193182 [2739000000, 2739000000]
  rw [h.2.2.1 (by decide), h.1]
  decide

/-- Where the counts are clamped, a split counts more events than the whole span, and the clamped
span of `ticksUntil` does not give the events asked for. -/
theorem clamped_counts :
    let p : RatePhase masterClockHz := ⟨0, by decide⟩
    (advanceAll (2 ^ 64 - 1) [2 ^ 63, 2 ^ 63 - 1] p).1 ≠
        (p.advance [2 ^ 63, 2 ^ 63 - 1].sum (2 ^ 64 - 1)).1 ∧
      p.ticksUntil (2 ^ 64 - 1) 1 = some (2 ^ 64 - 1) ∧
      (p.advance (2 ^ 64 - 1) 1).1 < 2 ^ 64 - 1 := by
  decide +kernel

end RatePhase

end IzarraVM.Timeline
