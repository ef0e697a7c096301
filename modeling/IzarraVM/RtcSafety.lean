import IzarraVM.Rtc

/-! When the ports and the clock of the chip stay inside the RAM and inside the types of the
date. -/
namespace IzarraVM.Cmos

open Checked Timeline

structure Time.Valid (t : Time) : Prop where
  year : t.year < 2 ^ 16
  month : 1 ≤ t.month ∧ t.month ≤ 12
  day : 1 ≤ t.day ∧ t.day ≤ 31
  weekday : 1 ≤ t.weekday ∧ t.weekday ≤ 7
  hour : t.hour < 24
  minute : t.minute < 60
  second : t.second < 60

def Time.Exists (t : Time) : Prop := ∀ dim, daysInMonth t.year t.month = .ok dim → t.day ≤ dim

def Time.secondOfDay (t : Time) : ℕ := t.hour * 3600 + t.minute * 60 + t.second

theorem Time.Valid.secondOfDay_lt {t : Time} (h : t.Valid) : t.secondOfDay < 86400 := by
  obtain ⟨-, -, -, -, hhour, hminute, hsecond⟩ := h
  unfold Time.secondOfDay
  omega

theorem clamp_mem (value : ℕ) {low high : ℕ} (h : low ≤ high) :
    low ≤ clamp value low high ∧ clamp value low high ≤ high := by
  unfold clamp
  omega

theorem daysInMonth_ok (year : ℕ) {month : ℕ} (h : 1 ≤ month ∧ month ≤ 12) :
    ∃ dim, daysInMonth year month = .ok dim ∧ 28 ≤ dim ∧ dim ≤ 31 := by
  unfold daysInMonth
  by_cases hleap : month = 2 ∧ isLeapYear year
  · rw [if_pos hleap]
    exact ⟨29, rfl, by omega, by omega⟩
  · rw [if_neg hleap]
    obtain ⟨hlow, hhigh⟩ := h
    clear hleap
    interval_cases month <;> exact ⟨_, rfl, by omega, by omega⟩

variable {t : Time}

theorem Time.Valid.nextMonth (h : t.Valid) : t.nextMonth.Valid := by
  obtain ⟨hyear, hmonth, hday, hweekday, hhour, hminute, hsecond⟩ := h
  have hfirst : 1 ≤ 1 ∧ 1 ≤ 31 := by decide
  have hjanuary : 1 ≤ 1 ∧ 1 ≤ 12 := by decide
  unfold Time.nextMonth
  dsimp only
  split_ifs with hlast
  · exact ⟨Nat.mod_lt _ (by decide), hjanuary, hfirst, hweekday, hhour, hminute, hsecond⟩
  · have hnext : 1 ≤ t.month + 1 ∧ t.month + 1 ≤ 12 := by omega
    exact ⟨hyear, hnext, hfirst, hweekday, hhour, hminute, hsecond⟩

theorem Time.nextMonth_day (t : Time) : t.nextMonth.day = 1 := by
  unfold Time.nextMonth
  dsimp only
  split_ifs <;> rfl

/-- One turn of the loop, where the date exists. -/
theorem rollDays_step {remaining dim : ℕ} (hpos : 0 < remaining)
    (hbound : t.day + remaining < 2 ^ 64) (hdim : daysInMonth t.year t.month = .ok dim)
    (hday : t.day ≤ dim) :
    rollDays t remaining =
      if t.day + remaining ≤ dim then .ok { t with day := t.day + remaining }
      else rollDays t.nextMonth (remaining - (dim - t.day + 1)) := by
  rw [rollDays, if_neg (by omega), hdim]
  dsimp only
  rw [add_ok hbound]
  dsimp only
  split_ifs with hfits
  · rfl
  · rw [sub_ok hday]
    dsimp only
    split
    · next hleft =>
      rw [sub_ok (by omega)] at hleft
      cases hleft
    · next left hleft => rw [(eq_of_sub_ok hleft).2]

theorem rollDays_ok {remaining : ℕ} (hvalid : t.Valid) (hbound : remaining < 2 ^ 63)
    (hdate : 0 < remaining → t.Exists) :
    ∃ t', rollDays t remaining = .ok t' ∧ t'.Valid := by
  induction remaining using Nat.strongRecOn generalizing t with
  | ind remaining ih =>
    rcases Nat.eq_zero_or_pos remaining with rfl | hpos
    · refine ⟨t, ?_, hvalid⟩
      rw [rollDays, if_pos rfl]
    obtain ⟨dim, hdim, hlow, hhigh⟩ := daysInMonth_ok t.year hvalid.month
    have hday := hdate hpos dim hdim
    have hlast := hvalid.day
    rw [rollDays_step hpos (by omega) hdim hday]
    split_ifs with hfits
    · refine ⟨_, rfl, hvalid.year, hvalid.month, ?_, hvalid.weekday, hvalid.hour, hvalid.minute,
        hvalid.second⟩
      dsimp only
      omega
    · refine ih _ (by omega) hvalid.nextMonth (by omega) fun _ dim' hdim' => ?_
      obtain ⟨dim'', hdim'', hlow', -⟩ := daysInMonth_ok t.nextMonth.year hvalid.nextMonth.month
      rw [hdim''] at hdim'
      cases hdim'
      rw [t.nextMonth_day]
      omega

/-- A day past the end of its month underflows at the first carry. -/
theorem rollDays_underflow {remaining : ℕ} (hvalid : t.Valid) (hpos : 0 < remaining)
    (hbound : remaining < 2 ^ 63) (hdate : ¬ t.Exists) :
    rollDays t remaining = .error .underflow := by
  obtain ⟨dim, hdim, -, -⟩ := daysInMonth_ok t.year hvalid.month
  have hday : dim < t.day := by
    by_contra hle
    refine hdate fun dim' hdim' => ?_
    rw [hdim] at hdim'
    cases hdim'
    omega
  have hlast := hvalid.day
  rw [rollDays, if_neg (by omega), hdim]
  dsimp only
  rw [add_ok (by omega)]
  dsimp only
  rw [if_neg (by omega), sub_error (by omega)]

theorem rollWeekday_ok {weekday : ℕ} (h : 1 ≤ weekday ∧ weekday ≤ 7) (dayCarry : ℕ) :
    ∃ weekday', rollWeekday weekday dayCarry = .ok weekday' ∧ 1 ≤ weekday' ∧ weekday' ≤ 7 := by
  unfold rollWeekday
  split_ifs
  · rw [sub_ok h.1]
    simp only [bind, Except.bind]
    rw [add_ok (by omega)]
    exact ⟨_, rfl, by omega, by omega⟩
  · exact ⟨weekday, rfl, h⟩

def Time.setClock (t clock : Time) : Time :=
  { t with weekday := clock.weekday, hour := clock.hour, minute := clock.minute,
           second := clock.second }

def Time.clockAfter (t : Time) (n : ℕ) : Time :=
  { t with
    weekday := (t.weekday - 1 + (t.secondOfDay + n) / 86400) % 7 + 1
    hour := (t.secondOfDay + n) % 86400 / 3600
    minute := (t.secondOfDay + n) / 60 % 60
    second := (t.secondOfDay + n) % 60 }

theorem nextMonth_setClock (t clock : Time) :
    (t.setClock clock).nextMonth = t.nextMonth.setClock clock := by
  simp only [Time.nextMonth, Time.setClock]
  by_cases hlast : t.month = 12
  · rw [if_pos hlast]
    exact if_pos hlast
  · rw [if_neg hlast]
    exact if_neg hlast

theorem Time.Valid.setClock {t clock : Time} (ht : t.Valid) (hclock : clock.Valid) :
    (t.setClock clock).Valid :=
  ⟨ht.year, ht.month, ht.day, hclock.weekday, hclock.hour, hclock.minute, hclock.second⟩

theorem clockAfter_valid (h : t.Valid) (n : ℕ) : (t.clockAfter n).Valid := by
  refine ⟨h.year, h.month, h.day, ?_, ?_, ?_, ?_⟩
  all_goals
    dsimp only [Time.clockAfter]
    omega

@[simp] theorem rollDays_zero (t : Time) : rollDays t 0 = .ok t := by
  rw [rollDays, if_pos rfl]

/-- The days are rolled without a look at the clock. -/
theorem rollDays_setClock {t clock : Time} (ht : t.Valid) (hclock : clock.Valid) {n : ℕ}
    (hbound : n < 2 ^ 63) :
    rollDays (t.setClock clock) n = (rollDays t n).map (·.setClock clock) := by
  induction n using Nat.strongRecOn generalizing t with
  | ind n ih =>
    rcases Nat.eq_zero_or_pos n with rfl | hpos
    · rw [rollDays_zero, rollDays_zero]
      rfl
    by_cases hdate : t.Exists
    · obtain ⟨dim, hdim, hlow, hhigh⟩ := daysInMonth_ok t.year ht.month
      have hday := hdate dim hdim
      have hlast := ht.day
      rw [rollDays_step hpos (by omega) hdim hday,
        rollDays_step (t := t.setClock clock) hpos (show t.day + n < 2 ^ 64 by omega) hdim hday]
      change (if t.day + n ≤ dim then _ else _) = _
      split_ifs with hfits
      · rfl
      · rw [nextMonth_setClock]
        exact ih _ (by omega) ht.nextMonth (by omega)
    · rw [rollDays_underflow ht hpos hbound hdate,
        rollDays_underflow (ht.setClock hclock) hpos hbound hdate]
      rfl

/-- The clock moves on its own, and the days it carries are rolled from the date. -/
theorem tick_eq_map (ht : t.Valid) {n : ℕ} (hfits : t.second + n < 2 ^ 64) :
    t.tick n =
      (rollDays t ((t.secondOfDay + n) / 86400)).map (·.setClock (t.clockAfter n)) := by
  have hhour := ht.hour
  have hminute := ht.minute
  have hsecond := ht.second
  have hweekday := ht.weekday
  have hcarry : (t.hour + (t.minute + (t.second + n) / 60) / 60) / 24 =
      (t.secondOfDay + n) / 86400 := by
    unfold Time.secondOfDay
    omega
  have hroll : rollWeekday t.weekday ((t.secondOfDay + n) / 86400) =
      .ok (t.clockAfter n).weekday := by
    unfold rollWeekday
    split_ifs with hdays
    · rw [sub_ok hweekday.1]
      simp only [bind, Except.bind]
      rw [add_ok (by omega)]
      refine congrArg Except.ok ?_
      dsimp only [Time.clockAfter]
      omega
    · refine congrArg Except.ok ?_
      dsimp only [Time.clockAfter]
      omega
  rw [← rollDays_setClock ht (clockAfter_valid ht n) (by unfold Time.secondOfDay; omega)]
  unfold Time.tick
  rw [add_ok hfits]
  simp only [bind, Except.bind]
  rw [add_ok (by omega)]
  dsimp only
  rw [add_ok (by omega)]
  dsimp only
  rw [hcarry, hroll]
  dsimp only
  refine congrArg (rollDays · _) ?_
  simp only [Time.setClock, Time.clockAfter, Time.secondOfDay, Time.mk.injEq, true_and]
  omega

theorem rollDays_valid {t u : Time} (ht : t.Valid) {n : ℕ} (hbound : n < 2 ^ 63)
    (h : rollDays t n = .ok u) : u.Valid := by
  have hdate (hpos : 0 < n) : t.Exists := by
    by_contra hdate
    rw [rollDays_underflow ht hpos hbound hdate] at h
    cases h
  obtain ⟨u', hu', hvalid⟩ := rollDays_ok ht hbound hdate
  rw [hu'] at h
  cases h
  exact hvalid

/-- A day carried out of a date that does not exist underflows. -/
theorem tick_underflow (hvalid : t.Valid) {n : ℕ} (hfits : t.second + n < 2 ^ 64)
    (hcarry : 86400 ≤ t.secondOfDay + n) (hdate : ¬ t.Exists) : t.tick n = .error .underflow := by
  have hsod := hvalid.secondOfDay_lt
  rw [tick_eq_map hvalid hfits, rollDays_underflow hvalid (by omega) (by omega) hdate]
  rfl

/-- The clock advances exactly if the seconds fit 64 bits and no day is carried out of a date that
does not exist. -/
theorem tick_ok_iff (hvalid : t.Valid) (n : ℕ) :
    (∃ t', t.tick n = .ok t') ↔
      t.second + n < 2 ^ 64 ∧ (86400 ≤ t.secondOfDay + n → t.Exists) := by
  have hsod := hvalid.secondOfDay_lt
  by_cases hfits : t.second + n < 2 ^ 64
  · constructor
    · rintro ⟨t', ht'⟩
      refine ⟨hfits, fun hcarry => ?_⟩
      by_contra hdate
      rw [tick_underflow hvalid hfits hcarry hdate] at ht'
      cases ht'
    · rintro ⟨-, hdate⟩
      have hexists (hcarry : 0 < (t.secondOfDay + n) / 86400) : t.Exists := hdate (by omega)
      obtain ⟨rolled, hrolled, -⟩ := rollDays_ok hvalid (by omega) hexists
      rw [tick_eq_map hvalid hfits, hrolled]
      exact ⟨_, rfl⟩
  · refine iff_of_false ?_ fun h => hfits h.1
    rintro ⟨t', ht'⟩
    unfold Time.tick at ht'
    rw [add_error hfits] at ht'
    cases ht'

theorem tick_valid {t t' : Time} (hvalid : t.Valid) {n : ℕ} (h : t.tick n = .ok t') : t'.Valid := by
  have hsod := hvalid.secondOfDay_lt
  have hfits := ((tick_ok_iff hvalid n).mp ⟨t', h⟩).1
  rw [tick_eq_map hvalid hfits] at h
  obtain ⟨rolled, hrolled, rfl⟩ := of_map_ok h
  exact (rollDays_valid hvalid (by omega) hrolled).setClock (clockAfter_valid hvalid n)

namespace Rtc

variable (r : Rtc)

/-- Reading the date back from the registers stays in range, whatever they hold. -/
theorem readTimeRegisters_ok : ∃ r', r.readTimeRegisters = .ok r' ∧ r'.time.Valid := by
  have hcentury : bcdToBin (r.reg regCentury) ≤ 165 := by
    have hbyte := (r.reg regCentury).toNat_lt
    unfold bcdToBin
    omega
  have hyy : (r.reg 0x09).toNat % 100 < 100 := Nat.mod_lt _ (by decide)
  unfold readTimeRegisters
  simp only [bind, Except.bind]
  rw [mul_ok (by omega)]
  dsimp only
  rw [add_ok (by omega)]
  refine ⟨_, rfl, ?_⟩
  refine ⟨?_, clamp_mem _ (by decide), clamp_mem _ (by decide), clamp_mem _ (by decide), ?_, ?_, ?_⟩
  all_goals dsimp only; omega

def Writable (register : ℕ) (value : UInt8) : Prop :=
  register < 64 ∧
    (register = regYear → r.time.year / 100 * 100 + value.toNat % 100 < 2 ^ 16)

def Guarded : Event → Prop
  | .writePort port value => port = 0x71 → r.Writable (r.index &&& 0x7f).toNat value
  | .advance _ elapsedSeconds => 0 < elapsedSeconds → r.time.second + elapsedSeconds < 2 ^ 64 ∧
      (86400 ≤ r.time.secondOfDay + elapsedSeconds → r.time.Exists)
  | _ => True

structure Meets (result : Except Slip Rtc) (guard : Prop) : Prop where
  ok_iff : (∃ r', result = .ok r') ↔ guard
  valid : ∀ r', result = .ok r' → r'.time.Valid

section Meets

variable {result : Except Slip Rtc} {guard : Prop}

theorem Meets.ok {r' : Rtc} (h : result = .ok r') (hguard : guard) (htime : r'.time.Valid) :
    Meets result guard := by
  subst h
  refine ⟨iff_of_true ⟨r', rfl⟩ hguard, fun r'' hr'' => ?_⟩
  cases hr''
  exact htime

theorem Meets.error {slip : Slip} (hguard : ¬ guard) : Meets (.error slip) guard :=
  ⟨iff_of_false nofun hguard, nofun⟩

end Meets

variable {r} (hvalid : r.time.Valid)
include hvalid

theorem tickSeconds_ok_iff (n : ℕ) : (∃ r', r.tickSeconds n = .ok r') ↔
    (0 < n → r.time.second + n < 2 ^ 64 ∧ (86400 ≤ r.time.secondOfDay + n → r.time.Exists)) := by
  unfold tickSeconds tickSecondsBy
  split_ifs with hzero
  · exact iff_of_true ⟨r, rfl⟩ fun hpos => by omega
  · rw [← tick_ok_iff hvalid n]
    constructor
    · rintro ⟨r', hr'⟩ -
      obtain ⟨t, ht, -⟩ := of_bind_ok hr'
      exact ⟨t, ht⟩
    · intro h
      obtain ⟨t, ht⟩ := h (by omega)
      rw [ht]
      exact ⟨_, rfl⟩

theorem tickSeconds_valid {n : ℕ} {r' : Rtc} (h : r.tickSeconds n = .ok r') : r'.time.Valid := by
  unfold tickSeconds tickSecondsBy at h
  split_ifs at h
  · cases h
    exact hvalid
  · obtain ⟨t, htick, h⟩ := of_bind_ok h
    cases h
    exact tick_valid hvalid htick

omit hvalid in
theorem latchInterruptFlags_time (flags : UInt8) : (r.latchInterruptFlags flags).2.time = r.time := by
  unfold latchInterruptFlags
  dsimp only
  split_ifs <;> rfl

/-- An advance does what the seconds do to the date. -/
theorem advance_spec (masterTicks elapsedSeconds : ℕ) :
    Meets (r.step (.advance masterTicks elapsedSeconds))
      (r.Guarded (.advance masterTicks elapsedSeconds)) := by
  have hiff := tickSeconds_ok_iff hvalid elapsedSeconds
  simp only [step, advanceMasterTicks, advanceMasterTicksBy, Guarded, ← hiff, tickSeconds]
  cases htick : r.tickSecondsBy Time.tick elapsedSeconds with
  | error slip => exact .error nofun
  | ok ticked =>
    refine .ok rfl ⟨_, rfl⟩ ?_
    rw [latchInterruptFlags_time]
    have hticked : ticked.time.Valid := tickSeconds_valid hvalid htick
    exact hticked

omit hvalid in
theorem writeRam_ok_iff (i : ℕ) (value : UInt8) : (∃ r', r.writeRam i value = .ok r') ↔ i < 64 := by
  unfold writeRam
  split_ifs with h
  · exact iff_of_true ⟨_, rfl⟩ h
  · exact iff_of_false nofun h

omit hvalid in
theorem writeRam_time {i : ℕ} {value : UInt8} {r' : Rtc} (h : r.writeRam i value = .ok r') :
    r'.time = r.time := by
  unfold writeRam at h
  split_ifs at h
  cases h
  rfl

omit hvalid in
/-- Every register but the year that the RAM has is writable. -/
theorem writable_of_ne {register : ℕ} {value : UInt8} (h : register < 64) (hne : register ≠ regYear) :
    r.Writable register value := ⟨h, fun heq => absurd heq hne⟩

theorem writeYear_spec (value : UInt8) :
    Meets (r.writeRegister regYear value) (r.Writable regYear value) := by
  have hyear : r.writeRegister regYear value =
      (add 16 (r.time.year / 100 * 100) (value.toNat % 100)).bind
        fun year => .ok { r with time := { r.time with year } } := rfl
  rw [hyear]
  by_cases hfits : r.time.year / 100 * 100 + value.toNat % 100 < 2 ^ 16
  · rw [add_ok hfits]
    exact .ok rfl ⟨by decide, fun _ => hfits⟩ { hvalid with year := hfits }
  · rw [add_error hfits]
    exact .error fun h => hfits (h.2 rfl)

omit hvalid in
/-- The registers that are neither the clock's nor a status byte. -/
theorem writeRegister_nvram {register : ℕ} (hreg : regD < register) (value : UInt8) :
    r.writeRegister register value = (r.writeRam register value).bind fun r =>
      if register = regCentury then ({ r with nvramDirty := true }.setReg regCenturyAlt value).readTimeRegisters
      else .ok { r with nvramDirty := true } := by
  have hother (k : ℕ) (hk : k ≤ regD) : ¬ register = k := by omega
  unfold writeRegister
  dsimp only
  rw [if_neg (hother _ (by decide)), if_neg (hother _ (by decide)), if_neg (hother _ (by decide)),
    if_neg (hother _ (by decide)), if_neg (hother _ (by decide)), if_neg (hother _ (by decide)),
    if_neg (hother _ (by decide)),
    if_neg (not_or_intro (hother _ (by decide))
      (not_or_intro (hother _ (by decide)) (hother _ (by decide)))),
    if_neg (hother _ (by decide)), if_neg (hother _ (by decide)),
    if_neg (not_or_intro (hother _ (by decide)) (hother _ (by decide)))]
  rfl

theorem writeNvram_spec {register : ℕ} (hreg : regD < register) (value : UInt8) :
    Meets (r.writeRegister register value) (r.Writable register value) := by
  have hlow : regD = 13 := rfl
  have hne : register ≠ regYear := by
    unfold regYear
    omega
  rw [writeRegister_nvram hreg]
  by_cases hin : register < 64
  · obtain ⟨written, hwritten⟩ := (writeRam_ok_iff register value).mpr hin
    have htime : written.time.Valid := by
      rw [writeRam_time hwritten]
      exact hvalid
    rw [hwritten]
    simp only [Except.bind]
    split_ifs
    · obtain ⟨r', hr', hok⟩ := readTimeRegisters_ok
        ({ written with nvramDirty := true }.setReg regCenturyAlt value)
      exact .ok hr' (writable_of_ne hin hne) hok
    · exact .ok rfl (writable_of_ne hin hne) htime
  · have hfails : ∀ r', r.writeRam register value ≠ .ok r' :=
      fun r' h => hin ((writeRam_ok_iff register value).mp ⟨r', h⟩)
    cases hwritten : r.writeRam register value with
    | ok r' => exact absurd hwritten (hfails r')
    | error slip => exact .error fun h => hin h.1

/-- A register below the NVRAM bytes, one after the other. -/
theorem writeRegister_spec (register : ℕ) (value : UInt8) :
    Meets (r.writeRegister register value) (r.Writable register value) := by
  by_cases hreg : regD < register
  · exact writeNvram_spec hvalid hreg value
  by_cases hyear : register = regYear
  · rw [hyear]
    exact writeYear_spec hvalid value
  have hsmall : register ≤ 13 := Nat.le_of_not_lt hreg
  have hin : r.Writable register value := writable_of_ne (by omega) hyear
  have hs : min value.toNat 59 < 60 := by omega
  have hh : min value.toNat 23 < 24 := by omega
  clear hreg
  -- the alarms and the status registers leave the date alone
  interval_cases register
  · exact .ok rfl hin { hvalid with second := hs }
  · exact .ok rfl hin hvalid
  · exact .ok rfl hin { hvalid with minute := hs }
  · exact .ok rfl hin hvalid
  · exact .ok rfl hin { hvalid with hour := hh }
  · exact .ok rfl hin hvalid
  · exact .ok rfl hin { hvalid with weekday := clamp_mem _ (by decide) }
  · exact .ok rfl hin { hvalid with day := clamp_mem _ (by decide) }
  · exact .ok rfl hin { hvalid with month := clamp_mem _ (by decide) }
  · exact absurd rfl hyear
  all_goals exact .ok rfl hin hvalid

theorem writeData_spec (value : UInt8) :
    Meets (r.writeData value) (r.Writable (r.index &&& 0x7f).toNat value) := by
  obtain ⟨hiff, hkept⟩ := writeRegister_spec hvalid (r.index &&& 0x7f).toNat value
  have hdata : r.writeData value = (r.writeRegister (r.index &&& 0x7f).toNat value).bind fun r' =>
      .ok (if (r.index &&& 0x7f).toNat ≤ regYear then r'.writeTimeRegisters else r') := rfl
  rw [← hiff, hdata]
  cases hwrite : r.writeRegister (r.index &&& 0x7f).toNat value with
  | error slip => exact .error nofun
  | ok written =>
    refine .ok rfl ⟨_, rfl⟩ ?_
    have hwritten := hkept written hwrite
    split_ifs <;> exact hwritten

omit hvalid in
/-- The index of a read is always in range. -/
theorem readData_ok : ∃ value r', r.readData = .ok (value, r') ∧ r'.time = r.time := by
  have hindex : (r.index &&& 0x3f).toNat < 64 := by
    rw [UInt8.toNat_and]
    exact Nat.lt_of_le_of_lt Nat.and_le_right (by decide)
  unfold readData readRam
  rw [dif_pos hindex]
  refine ⟨_, _, rfl, ?_⟩
  split_ifs <;> rfl

omit hvalid in
theorem seed_valid (year : UInt16) (month day weekday hour minute second : UInt8) :
    ∀ r', r.step (.seed year month day weekday hour minute second) = .ok r' → r'.time.Valid := by
  intro r' h
  cases h
  refine ⟨year.toNat_lt, clamp_mem _ (by decide), clamp_mem _ (by decide), clamp_mem _ (by decide),
    ?_, ?_, ?_⟩
  · exact Nat.lt_of_le_of_lt (Nat.min_le_right _ _) (by decide)
  · exact Nat.lt_of_le_of_lt (Nat.min_le_right _ _) (by decide)
  · exact Nat.lt_of_le_of_lt (Nat.min_le_right _ _) (by decide)

omit hvalid in
theorem readTimeRegisters_bind (f : Rtc → Bool × Rtc) (hf : ∀ r, (f r).2.time = r.time) :
    ∃ valid r', (r.readTimeRegisters >>= fun r => pure (f r)) = .ok (valid, r') ∧
      r'.time.Valid := by
  obtain ⟨read, hread, hok⟩ := readTimeRegisters_ok r
  rw [hread]
  refine ⟨_, _, rfl, ?_⟩
  rw [hf]
  exact hok

theorem loadNvram_spec (bytes : Vector UInt8 64) :
    ∃ valid r', r.loadNvram bytes = .ok (valid, r') ∧ r'.time.Valid := by
  unfold loadNvram
  dsimp only
  split
  · exact ⟨_, _, rfl, hvalid⟩
  · exact readTimeRegisters_bind _ fun _ => rfl

/-- A step stays in range exactly if it is guarded, and leaves a date its registers can hold. -/
theorem step_spec (e : Event) : Meets (r.step e) (r.Guarded e) := by
  cases e with
  | writePort port value =>
    by_cases hdata : port = 0x71
    · subst hdata
      obtain ⟨hiff, hkept⟩ := writeData_spec hvalid value
      refine ⟨hiff.trans ?_, hkept⟩
      exact ⟨fun h _ => h, fun h => h rfl⟩
    · by_cases hindex : port = 0x70
      · subst hindex
        exact .ok rfl (fun h => absurd h hdata) hvalid
      · have hnone : r.step (.writePort port value) = .ok r := by
          simp only [step, writePort, if_neg hindex, if_neg hdata]
          rfl
        exact .ok hnone (fun h => absurd h hdata) hvalid
  | readPort port =>
    by_cases hdata : port = 0x71
    · subst hdata
      obtain ⟨value, r', hr', htime⟩ := readData_ok (r := r)
      have hstep : r.step (.readPort 0x71) = .ok r' := by
        show (r.readData >>= fun p => pure (some p.1, p.2)).map Prod.snd = .ok r'
        rw [hr']
        rfl
      refine .ok hstep trivial ?_
      rw [htime]
      exact hvalid
    · by_cases hindex : port = 0x70
      · subst hindex
        exact .ok rfl trivial hvalid
      · have hnone : r.step (.readPort port) = .ok r := by
          simp only [step, readPort, if_neg hindex, if_neg hdata]
          rfl
        exact .ok hnone trivial hvalid
  | advance masterTicks elapsedSeconds => exact advance_spec hvalid masterTicks elapsedSeconds
  | setPeriodicInterruptEnabled enabled =>
    refine .ok rfl trivial ?_
    cases enabled <;> exact hvalid
  | setAlarm hour minute second =>
    refine .ok rfl trivial ?_
    unfold setAlarm
    split_ifs <;> exact hvalid
  | cancelAlarm => exact .ok rfl trivial hvalid
  | setCentury century =>
    obtain ⟨r', hr', hok⟩ := readTimeRegisters_ok
      ((r.setReg regCentury (binToBcd century.toNat)).setReg regCenturyAlt (binToBcd century.toNat))
    exact .ok hr' trivial hok
  | seed year month day weekday hour minute second =>
    exact ⟨iff_of_true ⟨_, rfl⟩ trivial, seed_valid year month day weekday hour minute second⟩
  | loadNvram bytes =>
    obtain ⟨valid, r', hr', hok⟩ := loadNvram_spec hvalid bytes
    have hstep : r.step (.loadNvram bytes) = .ok r' := by
      show (r.loadNvram bytes).map Prod.snd = .ok r'
      rw [hr']
      rfl
    exact .ok hstep trivial hok

end Rtc

theorem initial_valid : Rtc.initial.time.Valid :=
  ⟨by decide, by decide, by decide, by decide, by decide, by decide, by decide⟩

theorem run_valid {events : List Event} {r : Rtc} (h : run Rtc.step events Rtc.initial = .ok r) :
    r.time.Valid :=
  run_invariant (fun _ e r' hvalid hstep => (Rtc.step_spec hvalid e).2 r' hstep) events
    initial_valid h

/-- In every run of port accesses, firmware calls, host calls and clock advances, the chip stays
inside its RAM and its dates inside their types exactly if every step is guarded. -/
theorem run_in_range_iff (events : List Event) :
    (∃ r, run Rtc.step events Rtc.initial = .ok r) ↔
      Along Rtc.step Rtc.Guarded events Rtc.initial := by
  refine run_ok_iff (J := fun r => r.time.Valid) ?_ ?_ events initial_valid
  · exact fun r e r' hvalid h => (Rtc.step_spec hvalid e).2 r' h
  · exact fun r e hvalid => (Rtc.step_spec hvalid e).1

/-- The guest selects register 0x40 and writes data, and the guest sets the 31st of February and a
day passes. -/
theorem guest_leaves_range :
    run Rtc.step [.writePort 0x70 0x40, .writePort 0x71 0] Rtc.initial = .error .outOfRange ∧
      run Rtc.step [.writePort 0x70 0x08, .writePort 0x71 2, .writePort 0x70 0x07,
        .writePort 0x71 31, .advance 0 86400] Rtc.initial = .error .underflow := by
  refine ⟨rfl, ?_⟩
  obtain ⟨r, hr, htime⟩ : ∃ r, run Rtc.step [.writePort 0x70 0x08, .writePort 0x71 2,
      .writePort 0x70 0x07, .writePort 0x71 31] Rtc.initial = .ok r ∧
        r.time = { Rtc.initial.time with month := 2, day := 31 } := ⟨_, rfl, rfl⟩
  have hdate : ¬ r.time.Exists := by
    intro h
    rw [htime] at h
    exact absurd (h 28 rfl) (by decide)
  have hvalid : r.time.Valid := by
    rw [htime]
    exact ⟨by decide, by decide, by decide, by decide, by decide, by decide, by decide⟩
  have htick : r.time.tick 86400 = .error .underflow := by
    refine tick_underflow hvalid ?_ (Nat.le_add_left _ _) hdate
    rw [htime]
    decide
  have hadvance : r.step (.advance 0 86400) = .error .underflow := by
    have hseconds : r.tickSecondsBy Time.tick 86400 = .error .underflow := by
      unfold Rtc.tickSecondsBy
      rw [if_neg (by decide), htick]
      rfl
    simp only [Rtc.step, Rtc.advanceMasterTicks, Rtc.advanceMasterTicksBy, hseconds]
    rfl
  have hrun := run_append hr [.advance 0 86400]
  rw [run, hadvance] at hrun
  exact hrun

end IzarraVM.Cmos
