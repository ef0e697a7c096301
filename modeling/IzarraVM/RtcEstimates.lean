import IzarraVM.RtcRelease

/-! When the next interrupt of the chip is due, as it tells the machine that sleeps until then. -/
namespace IzarraVM.Cmos

open Checked Timeline

namespace Rtc

variable (r : Rtc)

theorem flag_and_ne_zero (p : Prop) [Decidable p] (bit mask : UInt8) :
    (if p then bit else 0) &&& mask ≠ 0 ↔ p ∧ bit &&& mask ≠ 0 := by
  by_cases hp : p <;> simp [hp]

/-- Each of the flags is gated by its own enable. -/
theorem gated_dueFlags (p u a : Prop) [Decidable p] [Decidable u] [Decidable a] (enables : UInt8) :
    gated (dueFlags p u a) enables = true ↔
      (p ∧ enables &&& regBPie ≠ 0) ∨ (a ∧ enables &&& regBAie ≠ 0) ∨
        (u ∧ enables &&& regBUie ≠ 0) := by
  have hperiodic : regCPf &&& regCPf ≠ 0 ∧ ¬ regCUf &&& regCPf ≠ 0 ∧ ¬ regCAf &&& regCPf ≠ 0 := by
    decide
  have halarm : ¬ regCPf &&& regCAf ≠ 0 ∧ ¬ regCUf &&& regCAf ≠ 0 ∧ regCAf &&& regCAf ≠ 0 := by
    decide
  have hupdate : ¬ regCPf &&& regCUf ≠ 0 ∧ regCUf &&& regCUf ≠ 0 ∧ ¬ regCAf &&& regCUf ≠ 0 := by
    decide
  rw [gated, decide_eq_true_eq]
  simp only [dueFlags, or_and_ne_zero, flag_and_ne_zero, hperiodic, halarm, hupdate,
    and_false, or_false, false_or]
  rw [and_iff_left hperiodic.1, and_iff_left halarm.2.2, and_iff_left hupdate.2.1]

def PredictedWithin (masterTicks elapsedSeconds : ℕ) : Prop :=
  (∃ t ∈ r.ticksUntilPeriodicIrq, t ≤ masterTicks) ∨
    ∃ t ∈ r.secondsUntilIrq, t ≤ elapsedSeconds

/-- The ticks until the next period are the least that end one. -/
theorem ticksUntil_le_iff (p : RatePhase masterClockHz) (rateHz masterTicks : ℕ) :
    (∃ t ∈ p.ticksUntil 1 rateHz, t ≤ masterTicks) ↔ 0 < (p.advance masterTicks rateHz).1 := by
  have hdue : 0 < (p.advance masterTicks rateHz).1 ↔ 1 ≤ p.exact masterTicks rateHz :=
    p.le_advance_iff (by decide) masterTicks rateHz
  rw [hdue]
  rcases Nat.eq_zero_or_pos rateHz with rfl | hrate
  · rw [p.ticksUntil_eq_none.mpr ⟨Nat.one_pos, rfl⟩]
    have hnone : p.exact masterTicks 0 = 0 := by
      rw [RatePhase.exact, Nat.mul_zero, Nat.add_zero, Nat.div_eq_of_lt p.lt]
    rw [hnone]
    exact iff_of_false (by simp) (by decide)
  · -- a period is shorter than a second of the master clock
    have hbound : p.exactTicks 1 rateHz < 2 ^ 64 := by
      have hsecond : p.exactTicks 1 rateHz ≤ masterClockHz := by
        rw [p.exactTicks_le_iff hrate, RatePhase.exact, Nat.le_div_iff_mul_le p.clock_pos, Nat.one_mul]
        exact (Nat.le_mul_of_pos_right _ hrate).trans (Nat.le_add_left _ _)
      exact Nat.lt_of_le_of_lt hsecond (by decide)
    obtain ⟨t, ht, heq⟩ := p.ticksUntil_eq Nat.one_pos hrate
    rw [ht, heq hbound, ← p.exactTicks_le_iff hrate]
    simp

/-- The least of two candidates lies within a span exactly if one of them does. -/
theorem min_within_iff (a b : Option ℕ) (n : ℕ) :
    (∃ t ∈ (a.toList ++ b.toList).min?, t ≤ n) ↔ (∃ t ∈ a, t ≤ n) ∨ ∃ t ∈ b, t ≤ n := by
  cases a with
  | none =>
    cases b with
    | none => simp
    | some b => simp
  | some a =>
    cases b with
    | none => simp
    | some b => simp [List.min?_cons]

/-- The flags due over a span raise the interrupt exactly if it was predicted within the span. -/
theorem predictedWithin_iff (masterTicks elapsedSeconds : ℕ) :
    (gated (r.flagsOver masterTicks elapsedSeconds) (r.reg 0x0b) && !r.irqf) = true ↔
      r.PredictedWithin masterTicks elapsedSeconds := by
  rw [Bool.and_eq_true, flagsOver, gated_dueFlags, Bool.not_eq_true']
  unfold PredictedWithin ticksUntilPeriodicIrq secondsUntilIrq
  by_cases hirqf : r.reg 0x0c &&& regCIrqf ≠ 0
  · have hset : r.irqf = true := decide_eq_true hirqf
    rw [if_pos (Or.inl hirqf), if_pos hirqf, hset]
    simp
  · have hclear : r.irqf = false := decide_eq_false hirqf
    rw [if_neg hirqf, hclear, min_within_iff, and_iff_left rfl]
    have hperiodic : (∃ t ∈ if r.reg 0x0c &&& regCIrqf ≠ 0 ∨ r.reg 0x0b &&& regBPie = 0 then none
        else r.periodicPhase.ticksUntil 1 r.periodicRateHz, t ≤ masterTicks) ↔
        0 < (r.periodicPhase.advance masterTicks r.periodicRateHz).1 ∧
          r.reg 0x0b &&& regBPie ≠ 0 := by
      by_cases henabled : r.reg 0x0b &&& regBPie = 0
      · simp [henabled]
      · rw [if_neg (not_or.mpr ⟨hirqf, henabled⟩), ticksUntil_le_iff, and_iff_left henabled]
    have hupdate : (∃ t ∈ if r.reg 0x0b &&& regBUie ≠ 0 then some 1 else none,
        t ≤ elapsedSeconds) ↔ 0 < elapsedSeconds ∧ r.reg 0x0b &&& regBUie ≠ 0 := by
      by_cases henabled : r.reg 0x0b &&& regBUie = 0
      · simp [henabled]
      · simp [henabled, Nat.one_le_iff_ne_zero, Nat.pos_iff_ne_zero]
    have halarm : (∃ t ∈ if r.reg 0x0b &&& regBAie ≠ 0 then r.secondsUntilAlarm else none,
        t ≤ elapsedSeconds) ↔ (0 < elapsedSeconds ∧
          (r.secondsUntilAlarm.any fun seconds => seconds ≤ elapsedSeconds) = true) ∧
            r.reg 0x0b &&& regBAie ≠ 0 := by
      by_cases henabled : r.reg 0x0b &&& regBAie = 0
      · simp [henabled]
      · rw [if_pos henabled, and_iff_left henabled, alarmWithin_iff,
          and_iff_right_of_imp AlarmWithin.pos, ← alarmWithin_iff, Option.any_eq_true]
        simp
    rw [hperiodic, hupdate, halarm]
    exact or_congr_right or_comm

/-- Some advance of a list raises the interrupt exactly if the flags of the whole span do. -/
theorem advanceAll_raised {tick : Time → ℕ → Except Slip Time} (htick : Ticks tick)
    (spans : List (ℕ × ℕ)) (hvalid : r.time.Valid) {result : Bool × Rtc}
    (h : advanceAllBy tick spans r = .ok result) :
    result.1 = (gated (r.flagsOver (spans.map Prod.fst).sum (spans.map Prod.snd).sum)
      (r.reg 0x0b) && !r.irqf) := by
  induction spans generalizing r result with
  | nil =>
    cases h
    rw [List.map_nil, List.map_nil, List.sum_nil, flagsOver_zero, gated_zero, Bool.false_and]
  | cons span rest ih =>
    obtain ⟨masterTicks, elapsedSeconds⟩ := span
    rw [advanceAllBy] at h
    obtain ⟨first, hfirst, h⟩ := of_bind_ok h
    obtain ⟨t, ht, rfl⟩ := r.eq_of_advance_ok htick hvalid hfirst
    obtain ⟨later, hlater, h⟩ := of_map_ok h
    cases h
    have hrest := ih _ (by rw [moved_time]; exact htick.valid hvalid ht) hlater
    simp only [List.map_cons, List.sum_cons]
    rw [hrest, r.flagsOver_add (htick.clock hvalid ht) (decide (0 < elapsedSeconds))
      (r.flagsOver masterTicks elapsedSeconds), gated_or, enables_moved,
      irqf_moved _ _ _ _ (r.flagsOver_irqf masterTicks elapsedSeconds)]
    -- a later advance raises only what no earlier one has
    cases r.irqf <;> cases gated (r.flagsOver masterTicks elapsedSeconds) (r.reg 0x0b) <;> simp

theorem advanceAll_run (spans : List (ℕ × ℕ)) : (advanceAll spans r).map Prod.snd =
    run step (spans.map fun span => .advance span.1 span.2) r := by
  induction spans generalizing r with
  | nil => rfl
  | cons span rest ih =>
    obtain ⟨masterTicks, elapsedSeconds⟩ := span
    rw [advanceAll, advanceAllBy, List.map_cons, run, step, advanceMasterTicks]
    cases r.advanceMasterTicksBy Time.tick masterTicks elapsedSeconds with
    | error slip => rfl
    | ok first =>
      change ((advanceAll rest first.2).map _).map _ = run step _ first.2
      rw [← ih]
      cases advanceAll rest first.2 <;> rfl

/-- The advances of a list succeed exactly if each of them is guarded. -/
theorem advanceAll_ok_iff (spans : List (ℕ × ℕ)) (hvalid : r.time.Valid) :
    (∃ result, advanceAll spans r = .ok result) ↔
      Along step Guarded (spans.map fun span => .advance span.1 span.2) r := by
  rw [← run_ok_iff (J := fun r => r.time.Valid) (fun r e r' hvalid h => (step_spec hvalid e).2 r' h)
    (fun r e hvalid => (step_spec hvalid e).1) _ hvalid, ← advanceAll_run]
  cases advanceAll spans r with
  | error slip => exact iff_of_false nofun nofun
  | ok result => exact iff_of_true ⟨_, rfl⟩ ⟨_, rfl⟩

/-- Without overflow checks the advances of a list always succeed. -/
theorem advanceAll_release (spans : List (ℕ × ℕ)) (hvalid : r.time.Valid) :
    ∃ result, advanceAllBy Time.tickRelease spans r = .ok result := by
  induction spans generalizing r with
  | nil => exact ⟨_, rfl⟩
  | cons span rest ih =>
    obtain ⟨masterTicks, elapsedSeconds⟩ := span
    obtain ⟨t, ht, hok, -⟩ := tickRelease_ok hvalid elapsedSeconds
    have hfirst := r.advanceMasterTicks_eq tickRelease_ticks hvalid masterTicks elapsedSeconds
    rw [ht] at hfirst
    obtain ⟨later, hlater⟩ := ih (r.moved t (0 < elapsedSeconds)
      (r.periodicPhase.advance masterTicks r.periodicRateHz).2
      (r.flagsOver masterTicks elapsedSeconds)) (by rw [moved_time]; exact hok)
    rw [advanceAllBy, hfirst]
    exact ⟨_, congrArg (Except.map _) hlater⟩

end Rtc

/-- In every state reached, advances by any steps succeed, and one of them raises the interrupt
exactly if it was predicted within the whole span: with overflow checks if and only if every one of
them is guarded, and without them always. -/
theorem estimates_tight_iff (events : List Event) (spans : List (ℕ × ℕ)) :
    (∀ r, run Rtc.step events Rtc.initial = .ok r →
      ((∃ raised r', Rtc.advanceAll spans r = .ok (raised, r') ∧
        (raised = true ↔
          r.PredictedWithin (spans.map Prod.fst).sum (spans.map Prod.snd).sum)) ↔
      Along Rtc.step Rtc.Guarded (spans.map fun span => .advance span.1 span.2) r)) ∧
    ∀ r, run Rtc.stepRelease events Rtc.initial = .ok r →
      ∃ raised r', Rtc.advanceAllBy Time.tickRelease spans r = .ok (raised, r') ∧
        (raised = true ↔
          r.PredictedWithin (spans.map Prod.fst).sum (spans.map Prod.snd).sum) := by
  refine ⟨fun r hr => ?_, fun r hr => ?_⟩
  · rw [← r.advanceAll_ok_iff spans (run_valid hr)]
    constructor
    · rintro ⟨raised, r', hok, -⟩
      exact ⟨_, hok⟩
    · rintro ⟨⟨raised, r'⟩, hok⟩
      refine ⟨raised, r', hok, ?_⟩
      rw [← Rtc.predictedWithin_iff, ← r.advanceAll_raised tick_ticks spans (run_valid hr) hok]
  · obtain ⟨⟨raised, r'⟩, hok⟩ := r.advanceAll_release spans (run_valid_release hr)
    refine ⟨raised, r', hok, ?_⟩
    rw [← Rtc.predictedWithin_iff,
      ← r.advanceAll_raised tickRelease_ticks spans (run_valid_release hr) hok]

def enableUpdate : List Event := [.writePort 0x70 0x0b, .writePort 0x71 0x10]

/-- The guest enables the update interrupt, and a second passes. -/
theorem update_interrupt_predicted :
    ∃ r, run Rtc.step enableUpdate Rtc.initial = .ok r ∧
      run Rtc.stepRelease enableUpdate Rtc.initial = .ok r ∧ r.secondsUntilIrq = some 1 ∧
      (∃ raised r', Rtc.advanceAll [(5478000000, 1)] r = .ok (raised, r') ∧
        (raised = true ↔ r.PredictedWithin 5478000000 1)) ∧
      ∃ raised r', Rtc.advanceAllBy Time.tickRelease [(5478000000, 1)] r = .ok (raised, r') ∧
        (raised = true ↔ r.PredictedWithin 5478000000 1) := by
  obtain ⟨r, hr, hrelease, hpredicted, htime⟩ :
      ∃ r, run Rtc.step enableUpdate Rtc.initial = .ok r ∧
        run Rtc.stepRelease enableUpdate Rtc.initial = .ok r ∧ r.secondsUntilIrq = some 1 ∧
        r.time = Rtc.initial.time := ⟨_, rfl, rfl, by decide, rfl⟩
  obtain ⟨hchecked, hwrapping⟩ := estimates_tight_iff enableUpdate [(5478000000, 1)]
  refine ⟨r, hr, hrelease, hpredicted, (hchecked r hr).mpr ⟨fun _ => ?_, ?_⟩, hwrapping r hrelease⟩
  · rw [htime]
    exact ⟨by decide, fun hcarry => absurd hcarry (by decide)⟩
  · exact fun _ _ => trivial

/-- The guest sets the last second of the 31st of February and enables the update interrupt: it is
predicted after a second, and the advance by that second underflows. -/
theorem prediction_missed :
    ∃ r, run Rtc.step [.writePort 0x70 0x08, .writePort 0x71 2, .writePort 0x70 0x07,
        .writePort 0x71 31, .writePort 0x70 0x04, .writePort 0x71 23, .writePort 0x70 0x02,
        .writePort 0x71 59, .writePort 0x70 0x00, .writePort 0x71 59, .writePort 0x70 0x0b,
        .writePort 0x71 0x10] Rtc.initial = .ok r ∧ r.secondsUntilIrq = some 1 ∧
      r.advanceMasterTicks 0 1 = .error .underflow := by
  obtain ⟨r, hr, hpredicted, htime⟩ : ∃ r, run Rtc.step [.writePort 0x70 0x08, .writePort 0x71 2,
      .writePort 0x70 0x07, .writePort 0x71 31, .writePort 0x70 0x04, .writePort 0x71 23,
      .writePort 0x70 0x02, .writePort 0x71 59, .writePort 0x70 0x00, .writePort 0x71 59,
      .writePort 0x70 0x0b, .writePort 0x71 0x10] Rtc.initial = .ok r ∧ r.secondsUntilIrq = some 1 ∧
        r.time = { Rtc.initial.time with month := 2, day := 31, hour := 23, minute := 59, second := 59 } :=
    ⟨_, rfl, by decide, rfl⟩
  refine ⟨r, hr, hpredicted, ?_⟩
  have hdate : ¬ r.time.Exists := by
    intro h
    rw [htime] at h
    exact absurd (h 28 rfl) (by decide)
  have hcarry : r.time.second + 1 < 2 ^ 64 ∧ 86400 ≤ r.time.secondOfDay + 1 := by
    rw [htime]
    decide
  rw [Rtc.advanceMasterTicks, r.advanceMasterTicks_eq tick_ticks (run_valid hr),
    tick_underflow (run_valid hr) hcarry.1 hcarry.2 hdate]
  rfl

end IzarraVM.Cmos
