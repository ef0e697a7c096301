import IzarraVM.RtcInterrupts

/-! Clock advances add up: a span leaves what any split of it leaves. -/
namespace IzarraVM.Cmos

open Checked Timeline

variable {t : Time}

/-- Days are rolled in one go or in two. -/
theorem rollDays_add (ht : t.Valid) {a b : ℕ} (hbound : a + b < 2 ^ 63) :
    rollDays t (a + b) = rollDays t a >>= fun u => rollDays u b := by
  induction a using Nat.strongRecOn generalizing t with
  | ind a ih =>
    rcases Nat.eq_zero_or_pos a with rfl | hpos
    · rw [Nat.zero_add, rollDays_zero]
      rfl
    by_cases hdate : t.Exists
    · obtain ⟨dim, hdim, hlow, hhigh⟩ := daysInMonth_ok t.year ht.month
      have hday := hdate dim hdim
      have hlast := ht.day
      rw [rollDays_step hpos (by omega) hdim hday, rollDays_step (by omega) (by omega) hdim hday]
      by_cases hfits : t.day + a ≤ dim
      · -- the first part ends inside the month, which the second part goes on from
        rw [if_pos hfits]
        change _ = rollDays { t with day := t.day + a } b
        rcases Nat.eq_zero_or_pos b with rfl | hb
        · rw [Nat.add_zero, if_pos hfits, rollDays_zero]
        · rw [rollDays_step (t := { t with day := t.day + a }) hb (by dsimp only; omega) hdim hfits]
          dsimp only
          rw [Nat.add_assoc]
          split_ifs with hall
          · rfl
          · rw [show a + b - (dim - t.day + 1) = b - (dim - (t.day + a) + 1) by omega]
            rfl
      · rw [if_neg hfits, if_neg (by omega),
          show a + b - (dim - t.day + 1) = a - (dim - t.day + 1) + b by omega]
        exact ih _ (by omega) ht.nextMonth (by omega)
    · rw [rollDays_underflow ht hpos (by omega) hdate,
        rollDays_underflow ht (by omega) hbound hdate]
      rfl

theorem tick_zero (ht : t.Valid) : t.tick 0 = .ok t := by
  obtain ⟨-, -, -, hweekday, hhour, hminute, hsecond⟩ := id ht
  rw [tick_eq_map ht (by omega), Nat.add_zero, Nat.div_eq_of_lt ht.secondOfDay_lt, rollDays_zero]
  refine congrArg Except.ok ?_
  cases t
  simp only [Time.setClock, Time.clockAfter, Time.secondOfDay, Time.mk.injEq, true_and] at *
  omega

/-- Rolling the days leaves the clock, which the tick then sets. -/
theorem tick_clock {t t' : Time} (ht : t.Valid) {n : ℕ} (h : t.tick n = .ok t') :
    t'.secondOfDay = (t.secondOfDay + n) % 86400 ∧ t'.second = (t.second + n) % 60 := by
  have hfits := ((tick_ok_iff ht n).mp ⟨t', h⟩).1
  rw [tick_eq_map ht hfits] at h
  obtain ⟨rolled, -, rfl⟩ := of_map_ok h
  simp only [Time.secondOfDay, Time.setClock, Time.clockAfter]
  omega

/-- What is asked of a clock: no time leaves the date, a date stays valid, and less than a day moves
the time of day by itself. -/
structure Ticks (tick : Time → ℕ → Except Slip Time) : Prop where
  zero : ∀ {t : Time}, t.Valid → tick t 0 = .ok t
  valid : ∀ {t t' : Time} {n : ℕ}, t.Valid → tick t n = .ok t' → t'.Valid
  clock : ∀ {t t' : Time} {n : ℕ}, t.Valid → tick t n = .ok t' →
    86400 ≤ n ∨ t'.secondOfDay = (t.secondOfDay + n) % 86400

theorem tick_ticks : Ticks Time.tick :=
  ⟨tick_zero, fun ht h => tick_valid ht h, fun ht h => .inr (tick_clock ht h).1⟩

/-- Seconds tick in one go or in two. -/
theorem tick_add (ht : t.Valid) {a b : ℕ} (hfits : t.second + (a + b) < 2 ^ 64) :
    t.tick (a + b) = t.tick a >>= fun u => u.tick b := by
  have hsod := ht.secondOfDay_lt
  have hdays : (t.secondOfDay + (a + b)) / 86400 =
      (t.secondOfDay + a) / 86400 + ((t.secondOfDay + a) % 86400 + b) / 86400 := by
    omega
  rw [tick_eq_map ht hfits, tick_eq_map ht (n := a) (by omega), hdays, rollDays_add ht (by omega)]
  cases hroll : rollDays t ((t.secondOfDay + a) / 86400) with
  | error slip => rfl
  | ok u =>
    have hu : u.Valid := rollDays_valid ht (by omega) hroll
    have hclock := clockAfter_valid ht a
    have hnow : (u.setClock (t.clockAfter a)).secondOfDay = (t.secondOfDay + a) % 86400 := by
      simp only [Time.secondOfDay, Time.setClock, Time.clockAfter]
      omega
    have hsecond : (u.setClock (t.clockAfter a)).second = (t.second + a) % 60 := by
      simp only [Time.secondOfDay, Time.setClock, Time.clockAfter]
      omega
    have hafter : (u.setClock (t.clockAfter a)).tick b =
        (rollDays u (((t.secondOfDay + a) % 86400 + b) / 86400)).map fun w =>
          (w.setClock (t.clockAfter a)).setClock ((u.setClock (t.clockAfter a)).clockAfter b) := by
      rw [tick_eq_map (hu.setClock hclock) (by omega), hnow, rollDays_setClock hu hclock (by omega)]
      cases rollDays u (((t.secondOfDay + a) % 86400 + b) / 86400) <;> rfl
    change (rollDays u _).map _ = (u.setClock (t.clockAfter a)).tick b
    rw [hafter]
    -- the clock that is set last is the one of the whole span
    refine congrArg (fun f => Except.map f _) (funext fun w => ?_)
    have hweekday : (t.clockAfter a).weekday = (t.weekday - 1 + (t.secondOfDay + a) / 86400) % 7 + 1 :=
      rfl
    simp only [Time.setClock, Time.clockAfter, Time.mk.injEq, true_and] at hnow hweekday ⊢
    omega

section

variable {p : ℕ → Bool} {period : ℕ} (hpos : 0 < period) (hperiod : ∀ d, p (d + period) = p d)
include hpos hperiod

/-- Looking for the first `p` one period ahead finds the first of all. -/
theorem find_period_eq_some {d : ℕ} :
    (List.range' 1 period).find? p = some d ↔ IsLeast {d | 1 ≤ d ∧ p d = true} d := by
  have hback (d : ℕ) (k : ℕ) : p (d + period * k) = p d := by
    induction k with
    | zero => rfl
    | succ k ih => rw [Nat.mul_succ, ← Nat.add_assoc, hperiod, ih]
  rw [List.find?_range'_eq_some]
  constructor
  · rintro ⟨hd, hmem, hfirst⟩
    have hlow := List.left_le_of_mem_range' hmem
    refine ⟨⟨hlow, hd⟩, fun e he => ?_⟩
    by_contra hlt
    have hnot := hfirst e he.1 (by omega)
    rw [he.2] at hnot
    cases hnot
  · rintro ⟨⟨hlow, hd⟩, hleast⟩
    refine ⟨hd, ?_, fun e he hlt => ?_⟩
    · -- what lies more than a period ahead has a match a period earlier
      have hfirst : d ≤ (d - 1) % period + 1 := by
        refine hleast ⟨by omega, ?_⟩
        have hsplit : (d - 1) % period + 1 + period * ((d - 1) / period) = d := by
          have hdiv := Nat.mod_add_div (d - 1) period
          omega
        rw [← hback _ ((d - 1) / period), hsplit]
        exact hd
      have hmod := Nat.mod_lt (d - 1) hpos
      rw [List.mem_range'_1]
      omega
    · rw [Bool.not_eq_true']
      by_contra hmatch
      have hle := hleast ⟨he, Bool.not_eq_false _ |>.mp hmatch⟩
      omega

theorem find_period_eq_none : (List.range' 1 period).find? p = none ↔ ∀ d, 1 ≤ d → p d = false := by
  classical
  constructor
  · intro hnone d hlow
    by_contra hmatch
    have hex : ∃ d, 1 ≤ d ∧ p d = true := ⟨d, hlow, Bool.not_eq_false _ |>.mp hmatch⟩
    have hleast : IsLeast {d | 1 ≤ d ∧ p d = true} (Nat.find hex) :=
      ⟨Nat.find_spec hex, fun e he => Nat.find_min' hex he⟩
    rw [(find_period_eq_some hpos hperiod).mpr hleast] at hnone
    cases hnone
  · intro hall
    rw [List.find?_eq_none]
    intro d hmem
    rw [hall d (List.left_le_of_mem_range' hmem)]
    exact Bool.false_ne_true

end

namespace Rtc

variable (r : Rtc)

def alarmAt (second : ℕ) : Bool :=
  r.alarmMatchesTime (second % 86400 / 3600) (second % 86400 / 60 % 60) (second % 86400 % 60)

theorem alarmAt_period (second : ℕ) : r.alarmAt (second + 86400) = r.alarmAt second := by
  simp only [alarmAt, Nat.add_mod_right]

theorem alarmAt_mod (second d : ℕ) :
    r.alarmAt (second % 86400 + d) = r.alarmAt (second + d) := by
  simp only [alarmAt, Nat.mod_add_mod]

theorem alarmAt_later (second d : ℕ) :
    r.alarmAt (second + (d + 86400)) = r.alarmAt (second + d) := by
  rw [← Nat.add_assoc, alarmAt_period]

/-- The alarm is looked up a day ahead, after which it comes again. -/
theorem secondsUntilAlarm_eq_some {d : ℕ} : r.secondsUntilAlarm = some d ↔
    IsLeast {d | 1 ≤ d ∧ r.alarmAt (r.time.secondOfDay + d) = true} d := by
  exact find_period_eq_some (p := fun d => r.alarmAt (r.time.secondOfDay + d)) (by decide)
    (r.alarmAt_later r.time.secondOfDay)

theorem secondsUntilAlarm_eq_none : r.secondsUntilAlarm = none ↔
    ∀ d, 1 ≤ d → r.alarmAt (r.time.secondOfDay + d) = false := by
  exact find_period_eq_none (p := fun d => r.alarmAt (r.time.secondOfDay + d)) (by decide)
    (r.alarmAt_later r.time.secondOfDay)

def AlarmWithin (n : ℕ) : Prop :=
  ∃ d, 1 ≤ d ∧ d ≤ n ∧ r.alarmAt (r.time.secondOfDay + d) = true

theorem alarmWithin_iff (n : ℕ) :
    (r.secondsUntilAlarm.any fun seconds => seconds ≤ n) = true ↔ r.AlarmWithin n := by
  cases hnext : r.secondsUntilAlarm with
  | none =>
    rw [secondsUntilAlarm_eq_none] at hnext
    refine iff_of_false Bool.false_ne_true ?_
    rintro ⟨d, hlow, -, hmatch⟩
    rw [hnext d hlow] at hmatch
    cases hmatch
  | some first =>
    obtain ⟨hmem, hleast⟩ := r.secondsUntilAlarm_eq_some.mp hnext
    rw [Option.any_some, decide_eq_true_eq]
    constructor
    · exact fun hle => ⟨first, hmem.1, hle, hmem.2⟩
    · rintro ⟨d, hlow, hle, hmatch⟩
      exact (hleast ⟨hlow, hmatch⟩).trans hle

variable (t : Time)

def timeByte (i : Fin 64) : Option UInt8 :=
  if regCenturyAlt = i then some (binToBcd (t.year / 100 % 256))
  else if regCentury = i then some (binToBcd (t.year / 100 % 256))
  else if 0x09 = i then some (UInt8.ofNat (t.year % 100))
  else if 0x08 = i then some (UInt8.ofNat t.month)
  else if 0x07 = i then some (UInt8.ofNat t.day)
  else if 0x06 = i then some (UInt8.ofNat t.weekday)
  else if 0x04 = i then some (UInt8.ofNat t.hour)
  else if 0x02 = i then some (UInt8.ofNat t.minute)
  else if 0x00 = i then some (UInt8.ofNat t.second)
  else none

theorem reg_writeTimeRegisters (i : Fin 64) :
    r.writeTimeRegisters.reg i = (timeByte r.time i).getD (r.reg i) := by
  simp only [writeTimeRegisters, reg_setReg, timeByte, apply_ite (Option.getD · (r.reg i)),
    Option.getD_some, Option.getD_none]

theorem ext_reg {r r' : Rtc} (hreg : ∀ i, r.reg i = r'.reg i) (hindex : r.index = r'.index)
    (hnmi : r.nmiDisabled = r'.nmiDisabled) (htime : r.time = r'.time) (hseeded : r.seeded = r'.seeded)
    (hdirty : r.nvramDirty = r'.nvramDirty) (hphase : r.periodicPhase = r'.periodicPhase) : r = r' := by
  have hram : r.ram = r'.ram := by
    apply Vector.ext
    intro i hi
    exact hreg ⟨i, hi⟩
  cases r
  cases r'
  cases hram
  cases hindex
  cases hnmi
  cases htime
  cases hseeded
  cases hdirty
  cases hphase
  rfl

variable (stamped : Bool) (phase : RatePhase masterClockHz) (flags : UInt8)

def moved : Rtc :=
  { r with
    time := t
    periodicPhase := phase
    ram := Vector.ofFn fun i =>
      if i = 0x0c then r.reg 0x0c ||| flags ||| (if gated flags (r.reg 0x0b) then regCIrqf else 0)
      else if stamped then (timeByte t i).getD (r.reg i) else r.reg i }

@[simp] theorem moved_time : (r.moved t stamped phase flags).time = t := rfl

@[simp] theorem moved_phase : (r.moved t stamped phase flags).periodicPhase = phase := rfl

theorem reg_moved (i : Fin 64) : (r.moved t stamped phase flags).reg i =
      if i = 0x0c then r.reg 0x0c ||| flags ||| (if gated flags (r.reg 0x0b) then regCIrqf else 0)
      else if stamped then (timeByte t i).getD (r.reg i) else r.reg i := by
  change (Vector.ofFn _)[i.val] = _
  rw [Vector.getElem_ofFn]

theorem flag_or (p q : Prop) [Decidable p] [Decidable q] (bit : UInt8) :
    (if p then bit else 0) ||| (if q then bit else 0) = if p ∨ q then bit else 0 := by
  by_cases hp : p
  · by_cases hq : q
    · rw [if_pos hp, if_pos hq, if_pos (Or.inl hp), UInt8.or_self]
    · rw [if_pos hp, if_neg hq, if_pos (Or.inl hp), UInt8.or_zero]
  · by_cases hq : q
    · rw [if_neg hp, if_pos hq, if_pos (Or.inr hq), UInt8.zero_or]
    · rw [if_neg hp, if_neg hq, if_neg (not_or.mpr ⟨hp, hq⟩), UInt8.zero_or]

/-- A move with the phase set apart. -/
theorem moved_setPhase (phase phase' : RatePhase masterClockHz)
    (flags : UInt8) : { r.moved t stamped phase flags with periodicPhase := phase' } =
      r.moved t stamped phase' flags := by
  simp only [moved]

section Moved

variable (t t' : Time) (stamped stamped' : Bool) (phase phase' : RatePhase masterClockHz)
  (flags flags' : UInt8)

/-- The registers that neither the date nor the flags are kept in. -/
theorem reg_moved_of_none {i : Fin 64} (hi : i ≠ 0x0c) (hnone : timeByte t i = none) :
    (r.moved t stamped phase flags).reg i = r.reg i := by
  rw [reg_moved, if_neg hi, hnone]
  cases stamped <;> rfl

theorem timeByte_isSome (i : Fin 64) : (timeByte t i).isSome = (timeByte t' i).isSome := by
  unfold timeByte
  split_ifs <;> rfl

/-- The last date is the one that is written. -/
theorem stamp_stamp (i : Fin 64) (value : UInt8) :
    (timeByte t' i).getD ((timeByte t i).getD value) = (timeByte t' i).getD value := by
  have hsome := timeByte_isSome t t' i
  cases ht' : timeByte t' i with
  | some byte => rfl
  | none =>
    rw [ht', Option.isSome_none, Option.isSome_eq_false_iff, Option.isNone_iff_eq_none] at hsome
    rw [hsome]
    rfl

/-- Two moves are one, to the last date and with the flags of both. -/
theorem moved_moved (hstill : stamped' = false → t' = t) :
    (r.moved t stamped phase flags).moved t' stamped' phase' flags' =
      r.moved t' (stamped || stamped') phase' (flags ||| flags') := by
  have henables : (r.moved t stamped phase flags).reg 0x0b = r.reg 0x0b :=
    r.reg_moved_of_none _ _ _ _ (by decide) rfl
  apply ext_reg
  case hreg =>
    intro i
    rw [reg_moved, henables, reg_moved, reg_moved, reg_moved, if_pos rfl]
    by_cases hi : i = 0x0c
    · simp only [if_pos hi, gated_or, Bool.or_eq_true]
      rw [← flag_or]
      ac_rfl
    · rw [if_neg hi, if_neg hi, if_neg hi]
      cases stamped' with
      | true =>
        cases stamped with
        | true => exact stamp_stamp t t' i _
        | false => rfl
      | false =>
        rw [hstill rfl, Bool.or_false]
        rfl
  -- every other field is the one of the second move or was not touched
  all_goals simp only [moved]

end Moved

/-- Nothing happens to a chip that is not moved. -/
theorem moved_still : r.moved r.time false r.periodicPhase 0 = r := by
  apply ext_reg
  case hreg =>
    intro i
    rw [reg_moved, gated_zero]
    by_cases hi : i = 0x0c
    · rw [if_pos hi, hi, if_neg Bool.false_ne_true, UInt8.or_zero, UInt8.or_zero]
    · rw [if_neg hi, if_neg Bool.false_ne_true]
  all_goals simp only [moved]

/-- Latching is a move that leaves the date. -/
theorem latchInterruptFlags_eq : r.latchInterruptFlags flags =
    (gated flags (r.reg 0x0b) && !r.irqf, r.moved r.time false r.periodicPhase flags) := by
  unfold latchInterruptFlags
  by_cases hzero : flags = 0
  · rw [if_pos hzero, hzero, gated_zero, moved_still]
    rfl
  rw [if_neg hzero]
  have henables : (r.setReg 0x0c (r.reg 0x0c ||| flags)).reg 0x0b = r.reg 0x0b :=
    r.reg_setReg_of_ne (by decide)
  dsimp only
  rw [henables]
  apply Prod.ext
  case fst =>
    rw [Bool.eq_iff_iff]
    simp only [gated, irqf, decide_eq_true_eq, Bool.and_eq_true, Bool.not_eq_true',
      decide_eq_false_iff_not]
  case snd =>
    apply ext_reg
    case hreg =>
      intro i
      rw [reg_moved, if_neg Bool.false_ne_true]
      by_cases hgated : gated flags (r.reg 0x0b) = true
      · rw [if_pos (of_decide_eq_true hgated), if_pos hgated, reg_setReg, reg_setReg_self, reg_setReg]
        simp only [eq_comm]
        split_ifs <;> rfl
      · rw [if_neg fun h => hgated (decide_eq_true h), if_neg hgated, reg_setReg, UInt8.or_zero]
        simp only [eq_comm]
    -- the flags are all that is latched
    all_goals split_ifs <;> rfl

variable {tick : Time → ℕ → Except Slip Time} (htick : Ticks tick)

include htick in
theorem tickSeconds_eq (hvalid : r.time.Valid) (n : ℕ) : r.tickSecondsBy tick n =
    (tick r.time n).map fun t => r.moved t (0 < n) r.periodicPhase 0 := by
  unfold tickSecondsBy
  split_ifs with hzero
  · rw [hzero, htick.zero hvalid]
    exact congrArg Except.ok r.moved_still.symm
  · cases tick r.time n with
    | error slip => rfl
    | ok t =>
      refine congrArg Except.ok ?_
      apply ext_reg
      case hreg =>
        intro i
        rw [reg_writeTimeRegisters, reg_moved, gated_zero, if_neg Bool.false_ne_true, UInt8.or_zero,
          UInt8.or_zero, if_pos (decide_eq_true (Nat.pos_of_ne_zero hzero))]
        split_ifs with hi
        · rw [hi]
          rfl
        · rfl
      all_goals rfl

-- From here on a move is known by its lemmas: comparing two of them byte by byte is slow.
attribute [irreducible] moved

theorem enables_moved :
    (r.moved t stamped phase flags).reg 0x0b = r.reg 0x0b :=
  r.reg_moved_of_none _ _ _ _ (by decide) rfl

theorem rate_moved :
    (r.moved t stamped phase flags).periodicRateHz = r.periodicRateHz := by
  unfold periodicRateHz
  rw [r.reg_moved_of_none _ _ _ _ (by decide) rfl]

theorem alarmAt_moved
    (second : ℕ) : (r.moved t stamped phase flags).alarmAt second = r.alarmAt second := by
  unfold alarmAt alarmMatchesTime
  rw [r.reg_moved_of_none t stamped phase flags (i := 0x01) (by decide) rfl,
    r.reg_moved_of_none t stamped phase flags (i := 0x03) (by decide) rfl,
    r.reg_moved_of_none t stamped phase flags (i := 0x05) (by decide) rfl]

/-- The request bit rises with the flags that are gated through. -/
theorem irqf_moved {flags : UInt8}
    (hflags : flags &&& regCIrqf = 0) :
    (r.moved t stamped phase flags).irqf = (r.irqf || gated flags (r.reg 0x0b)) := by
  rw [Bool.eq_iff_iff]
  simp only [irqf, reg_moved, if_true, or_and_ne_zero, hflags, Bool.or_eq_true, decide_eq_true_eq]
  by_cases hgated : gated flags (r.reg 0x0b) = true
  · simp [hgated, regCIrqf]
  · simp [hgated]

def flagsOver (masterTicks elapsedSeconds : ℕ) : UInt8 :=
  dueFlags (0 < (r.periodicPhase.advance masterTicks r.periodicRateHz).1) (0 < elapsedSeconds)
    (0 < elapsedSeconds ∧ r.secondsUntilAlarm.any fun seconds => seconds ≤ elapsedSeconds)

include htick in
/-- An advance moves the date and latches the flags that are due. -/
theorem advanceMasterTicks_eq (hvalid : r.time.Valid) (masterTicks elapsedSeconds : ℕ) :
    r.advanceMasterTicksBy tick masterTicks elapsedSeconds =
      (tick r.time elapsedSeconds).map fun t =>
        (gated (r.flagsOver masterTicks elapsedSeconds) (r.reg 0x0b) && !r.irqf,
          r.moved t (0 < elapsedSeconds)
            (r.periodicPhase.advance masterTicks r.periodicRateHz).2
            (r.flagsOver masterTicks elapsedSeconds)) := by
  unfold advanceMasterTicksBy
  rw [tickSeconds_eq _ htick hvalid]
  cases tick r.time elapsedSeconds with
  | error slip => rfl
  | ok t =>
    refine congrArg Except.ok ?_
    dsimp only
    simp only [moved_phase, rate_moved, moved_setPhase]
    rw [latchInterruptFlags_eq, enables_moved, irqf_moved _ _ _ _ UInt8.zero_and, gated_zero,
      Bool.or_false, moved_time, moved_phase, r.moved_moved _ _ _ _ _ _ _ _ fun _ => rfl,
      Bool.or_false, UInt8.zero_or]
    rfl

theorem dueFlags_or {p u a p' u' a' p'' u'' a'' : Prop} [Decidable p] [Decidable u] [Decidable a]
    [Decidable p'] [Decidable u'] [Decidable a'] [Decidable p''] [Decidable u''] [Decidable a'']
    (hp : p'' ↔ p ∨ p') (hu : u'' ↔ u ∨ u') (ha : a'' ↔ a ∨ a') :
    dueFlags p'' u'' a'' = dueFlags p u a ||| dueFlags p' u' a' := by
  unfold dueFlags
  simp only [hp, hu, ha, ← flag_or]
  ac_rfl

/-- A period ends in one of two spans or in neither. -/
theorem periods_add (m₁ m₂ : ℕ) : 0 < (r.periodicPhase.advance (m₁ + m₂) r.periodicRateHz).1 ↔
    0 < (r.periodicPhase.advance m₁ r.periodicRateHz).1 ∨
      0 < ((r.periodicPhase.advance m₁ r.periodicRateHz).2.advance m₂ r.periodicRateHz).1 := by
  have hdue (p : RatePhase masterClockHz) (m : ℕ) :
      0 < (p.advance m r.periodicRateHz).1 ↔ 0 < p.exact m r.periodicRateHz :=
    p.le_advance_iff (by decide) m _
  rw [hdue, hdue, hdue, RatePhase.exact_add]
  omega

theorem AlarmWithin.pos {r : Rtc} {n : ℕ} (h : r.AlarmWithin n) : 0 < n := by
  obtain ⟨d, hlow, hle, -⟩ := h
  omega

/-- An alarm that matches at some time of day comes within a day. -/
theorem AlarmWithin.of_match {second n : ℕ} (h : r.alarmAt second = true) (hn : 86400 ≤ n) :
    r.AlarmWithin n := by
  refine ⟨(second + (86400 - r.time.secondOfDay % 86400) + 86399) % 86400 + 1, by omega, by omega, ?_⟩
  have hsame : (r.time.secondOfDay + ((second + (86400 - r.time.secondOfDay % 86400) + 86399) % 86400 +
      1)) % 86400 = second % 86400 := by omega
  rw [← h]
  simp only [alarmAt, hsame]

variable {t : Time} {s₁ s₂ : ℕ}
  (hclock : 86400 ≤ s₁ ∨ t.secondOfDay = (r.time.secondOfDay + s₁) % 86400)
include hclock

/-- The alarm matches in one of two spans or in neither. -/
theorem alarmWithin_add (stamped : Bool) (phase : RatePhase masterClockHz) (flags : UInt8) :
    r.AlarmWithin (s₁ + s₂) ↔
      r.AlarmWithin s₁ ∨ (r.moved t stamped phase flags).AlarmWithin s₂ := by
  rcases hclock with hday | hclock
  · -- a day has them all
    constructor
    · exact fun ⟨d, _, _, hmatch⟩ => .inl (.of_match r hmatch hday)
    · rintro (⟨d, hlow, hle, hmatch⟩ | ⟨d, -, -, hmatch⟩)
      · exact ⟨d, hlow, by omega, hmatch⟩
      · rw [alarmAt_moved] at hmatch
        exact .of_match r hmatch (by omega)
  have hnow (d : ℕ) : (r.moved t stamped phase flags).alarmAt (t.secondOfDay + d) =
      r.alarmAt (r.time.secondOfDay + (s₁ + d)) := by
    rw [alarmAt_moved, hclock, alarmAt_mod, Nat.add_assoc]
  simp only [AlarmWithin, moved_time, hnow]
  constructor
  · rintro ⟨d, hlow, hle, hmatch⟩
    by_cases hfirst : d ≤ s₁
    · exact Or.inl ⟨d, hlow, hfirst, hmatch⟩
    · refine Or.inr ⟨d - s₁, by omega, by omega, ?_⟩
      rw [Nat.add_sub_cancel' (by omega)]
      exact hmatch
  · rintro (⟨d, hlow, hle, hmatch⟩ | ⟨d, hlow, hle, hmatch⟩)
    · exact ⟨d, hlow, by omega, hmatch⟩
    · exact ⟨s₁ + d, by omega, by omega, hmatch⟩

/-- The flags due over two spans are due over the whole, whatever is latched in between. -/
theorem flagsOver_add {m₁ m₂ : ℕ} (stamped : Bool) (flags : UInt8) :
    r.flagsOver (m₁ + m₂) (s₁ + s₂) = r.flagsOver m₁ s₁ ||| (r.moved t stamped
      (r.periodicPhase.advance m₁ r.periodicRateHz).2 flags).flagsOver m₂ s₂ := by
  unfold flagsOver
  refine dueFlags_or ?_ (by omega) ?_
  · rw [moved_phase, rate_moved]
    exact r.periods_add m₁ m₂
  · have hpos {r : Rtc} {n : ℕ} : 0 < n ∧ r.AlarmWithin n ↔ r.AlarmWithin n :=
      and_iff_right_of_imp AlarmWithin.pos
    rw [alarmWithin_iff, alarmWithin_iff, alarmWithin_iff, hpos, hpos, hpos]
    exact r.alarmWithin_add hclock stamped _ flags

omit hclock in
theorem flagsOver_irqf (masterTicks elapsedSeconds : ℕ) :
    r.flagsOver masterTicks elapsedSeconds &&& regCIrqf = 0 := dueFlags_irqf _ _ _

omit hclock in
/-- Two advances are one over both spans. -/
theorem advanceMasterTicks_add (hvalid : r.time.Valid) {m₁ m₂ : ℕ}
    (hfits : r.time.second + (s₁ + s₂) < 2 ^ 64) :
    r.advanceMasterTicks (m₁ + m₂) (s₁ + s₂) = r.advanceMasterTicks m₁ s₁ >>= fun first =>
      (first.2.advanceMasterTicks m₂ s₂).map fun second => (first.1 || second.1, second.2) := by
  unfold advanceMasterTicks
  rw [r.advanceMasterTicks_eq tick_ticks hvalid, r.advanceMasterTicks_eq tick_ticks hvalid,
    tick_add hvalid hfits]
  cases ht : r.time.tick s₁ with
  | error slip => rfl
  | ok t =>
    have hvalid' : (r.moved t (0 < s₁) (r.periodicPhase.advance m₁ r.periodicRateHz).2
        (r.flagsOver m₁ s₁)).time.Valid := by
      rw [moved_time]
      exact tick_valid hvalid ht
    change (t.tick s₂).map _ = (advanceMasterTicksBy (r.moved t (0 < s₁) _ _) _ m₂ s₂).map _
    rw [advanceMasterTicks_eq _ tick_ticks hvalid', moved_time]
    have hclock := tick_ticks.clock hvalid ht
    cases ht' : t.tick s₂ with
    | error slip => rfl
    | ok t' =>
      have hstill (hnone : decide (0 < s₂) = false) : t' = t := by
        have hzero : s₂ = 0 := by
          rw [decide_eq_false_iff_not] at hnone
          omega
        rw [hzero, tick_zero (tick_valid hvalid ht)] at ht'
        exact (Except.ok.inj ht').symm
      refine congrArg Except.ok (Prod.ext ?_ ?_)
      · dsimp only
        rw [r.flagsOver_add hclock (decide (0 < s₁)) (r.flagsOver m₁ s₁), gated_or, enables_moved,
          irqf_moved _ _ _ _ (r.flagsOver_irqf m₁ s₁)]
        cases r.irqf <;> cases gated (r.flagsOver m₁ s₁) (r.reg 0x0b) <;> simp
      · dsimp only
        rw [r.flagsOver_add hclock (decide (0 < s₁)) (r.flagsOver m₁ s₁),
          r.moved_moved _ _ _ _ _ _ _ _ hstill, moved_phase, rate_moved, RatePhase.remainder_add]
        congr 1
        rw [← Bool.decide_or, decide_eq_decide]
        omega

def advanceAllBy (tick : Time → ℕ → Except Slip Time) :
    List (ℕ × ℕ) → Rtc → Except Slip (Bool × Rtc)
  | [], r => .ok (false, r)
  | (masterTicks, elapsedSeconds) :: rest, r =>
    r.advanceMasterTicksBy tick masterTicks elapsedSeconds >>= fun first =>
      (advanceAllBy tick rest first.2).map fun later => (first.1 || later.1, later.2)

def advanceAll : List (ℕ × ℕ) → Rtc → Except Slip (Bool × Rtc) := advanceAllBy Time.tick

omit hclock in
include htick in
/-- What an advance that succeeds does. -/
theorem eq_of_advance_ok (hvalid : r.time.Valid) {masterTicks elapsedSeconds : ℕ}
    {result : Bool × Rtc}
    (h : r.advanceMasterTicksBy tick masterTicks elapsedSeconds = .ok result) :
    ∃ t, tick r.time elapsedSeconds = .ok t ∧
      result = (gated (r.flagsOver masterTicks elapsedSeconds) (r.reg 0x0b) && !r.irqf,
        r.moved t (0 < elapsedSeconds) (r.periodicPhase.advance masterTicks r.periodicRateHz).2
          (r.flagsOver masterTicks elapsedSeconds)) := by
  rw [r.advanceMasterTicks_eq htick hvalid] at h
  obtain ⟨t, ht, rfl⟩ := of_map_ok h
  exact ⟨t, ht, rfl⟩

omit hclock in
theorem flagsOver_zero : r.flagsOver 0 0 = 0 := by
  have hdue : ¬ 0 < (r.periodicPhase.advance 0 r.periodicRateHz).1 := by
    have hiff := r.periodicPhase.le_advance_iff (by decide : 1 < 2 ^ 64) 0 r.periodicRateHz
    rw [RatePhase.exact_zero] at hiff
    omega
  rw [flagsOver, dueFlags, if_neg hdue, if_neg (Nat.lt_irrefl 0), if_neg fun h => Nat.lt_irrefl 0 h.1]
  rfl

omit hclock in
/-- An empty span changes nothing. -/
theorem advance_zero (hvalid : r.time.Valid) : r.advanceMasterTicks 0 0 = .ok (false, r) := by
  rw [advanceMasterTicks, r.advanceMasterTicks_eq tick_ticks hvalid, tick_zero hvalid, flagsOver_zero, gated_zero,
    RatePhase.advance_zero]
  exact congrArg (fun moved => Except.ok (false, moved)) r.moved_still

omit hclock in
/-- However a span is split, the advances leave what one advance over the whole span leaves, and one
of them raises the interrupt exactly if it does. -/
theorem advanceAll_eq (spans : List (ℕ × ℕ)) (hvalid : r.time.Valid)
    (hfits : r.time.second + (spans.map Prod.snd).sum < 2 ^ 64) :
    advanceAll spans r =
      r.advanceMasterTicks (spans.map Prod.fst).sum (spans.map Prod.snd).sum := by
  induction spans generalizing r with
  | nil => exact (r.advance_zero hvalid).symm
  | cons span rest ih =>
    obtain ⟨masterTicks, elapsedSeconds⟩ := span
    simp only [List.map_cons, List.sum_cons] at hfits ⊢
    rw [advanceAll, advanceAllBy, r.advanceMasterTicks_add hvalid hfits]
    change advanceMasterTicks _ _ _ >>= _ = _
    cases hfirst : r.advanceMasterTicks masterTicks elapsedSeconds with
    | error slip => rfl
    | ok first =>
      obtain ⟨t, ht, rfl⟩ := r.eq_of_advance_ok tick_ticks hvalid hfirst
      have hsecond := (tick_clock hvalid ht).2
      refine congrArg (Except.map _) (ih _ ?_ ?_)
      · rw [moved_time]
        exact tick_valid hvalid ht
      · rw [moved_time]
        omega

end Rtc

/-- In every run, the request bit is the wire-OR of the gated flags throughout exactly if no step
changes the enables, or takes over an image, against the flags that are latched; and in every state
reached, any split of a span that fits 64 bits is one advance over it. -/
theorem interrupt_flag_law_iff (events : List Event) :
    (Throughout Rtc.step Rtc.Lawful events Rtc.initial ↔
      Along Rtc.step Rtc.Steady events Rtc.initial) ∧
    ∀ r, run Rtc.step events Rtc.initial = .ok r → ∀ spans : List (ℕ × ℕ),
      r.time.second + (spans.map Prod.snd).sum < 2 ^ 64 →
      Rtc.advanceAll spans r =
        r.advanceMasterTicks (spans.map Prod.fst).sum (spans.map Prod.snd).sum := by
  refine ⟨throughout_iff ?_ ?_ events ?_, fun r hr spans hfits => ?_⟩
  · exact fun r e r' hlaw h => r.step_lawful hlaw h
  · exact fun r e slip h => r.steady_of_error h
  · decide
  · exact r.advanceAll_eq spans (run_valid hr) hfits

/-- The interrupt is enabled before its first period ends; two spans of a period are one of two. -/
theorem enabled_before_period :
    Throughout Rtc.step Rtc.Lawful
        [.writePort 0x70 0x0b, .writePort 0x71 0x40, .advance 10000000 0] Rtc.initial ∧
      Rtc.advanceAll [(10000000, 0), (10000000, 0)] Rtc.initial =
        Rtc.initial.advanceMasterTicks 20000000 0 := by
  constructor
  · apply (interrupt_flag_law_iff _).1.mpr
    refine ⟨fun hport => absurd hport (by decide), fun selected hselected => ?_⟩
    cases hselected
    refine ⟨fun _ _ => by decide, fun enabled henabled => ?_⟩
    cases henabled
    exact ⟨trivial, fun _ _ => trivial⟩
  · exact (interrupt_flag_law_iff []).2 Rtc.initial rfl [(10000000, 0), (10000000, 0)] (by decide)

/-- A period ends with its interrupt disabled, and the guest then enables it: flag and enable are set
and the request bit is not. -/
theorem enabling_skips_request :
    ∃ r, run Rtc.step [.advance 10000000 0, .writePort 0x70 0x0b, .writePort 0x71 0x40] Rtc.initial =
        .ok r ∧ r.reg 0x0c = regCPf ∧ r.reg 0x0b &&& regBPie ≠ 0 ∧ ¬ r.Lawful :=
  ⟨_, rfl, by decide, by decide, by decide⟩

end IzarraVM.Cmos
