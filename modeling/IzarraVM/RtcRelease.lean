import IzarraVM.RtcSpans

/-! The clock as the release profile builds it: sums and differences wrap, indices are checked. -/
namespace IzarraVM.Cmos

open Checked Timeline

def wrappingAdd (width a b : ℕ) : ℕ := (a + b) % 2 ^ width

def wrappingSub (width a b : ℕ) : ℕ := (a + (2 ^ width - b % 2 ^ width)) % 2 ^ width

/-- The two differences of the loop, taken together. -/
theorem wrappingSub_rest {day remainingDays dim : ℕ} (h : dim < wrappingAdd 64 day remainingDays) :
    wrappingSub 64 remainingDays (wrappingAdd 64 (wrappingSub 64 dim day) 1) =
      wrappingAdd 64 day remainingDays - dim - 1 := by
  unfold wrappingSub wrappingAdd at *
  omega

theorem daysInMonth_pos {year month dim : ℕ} (hmonth : month ≠ 0)
    (h : daysInMonth year month = .ok dim) : 0 < dim := by
  by_cases hlast : month ≤ 12
  · obtain ⟨dim', hdim, hlow, -⟩ := daysInMonth_ok year ⟨Nat.pos_of_ne_zero hmonth, hlast⟩
    rw [hdim] at h
    cases h
    omega
  · have hnone : daysTable[month]? = none :=
      List.getElem?_eq_none (Nat.le_of_not_lt fun h => hlast (Nat.le_of_lt_succ h))
    rw [daysInMonth, if_neg (by omega), entry, hnone] at h
    cases h

theorem nextMonth_month_ne_zero (t : Time) : t.nextMonth.month ≠ 0 := by
  unfold Time.nextMonth
  dsimp only
  split_ifs <;> exact Nat.succ_ne_zero _

def rollDaysRelease (t : Time) (remainingDays : ℕ) : Except Slip Time :=
  if remainingDays = 0 then .ok t
  else
    match _hdim : daysInMonth t.year t.month with
    | .error slip => .error slip
    | .ok dim =>
      if _hmore : wrappingAdd 64 t.day remainingDays ≤ dim then
        .ok { t with day := wrappingAdd 64 t.day remainingDays }
      else
        rollDaysRelease t.nextMonth
          (wrappingSub 64 remainingDays (wrappingAdd 64 (wrappingSub 64 dim t.day) 1))
termination_by remainingDays + t.day + if t.month = 0 then 1 else 0
decreasing_by
  have hpos (h : t.month ≠ 0) := daysInMonth_pos h _hdim
  have htotal : wrappingAdd 64 t.day remainingDays ≤ t.day + remainingDays := Nat.mod_le _ _
  rw [wrappingSub_rest (Nat.lt_of_not_le _hmore), t.nextMonth_day, if_neg (nextMonth_month_ne_zero t)]
  split_ifs <;> omega

def Time.tickRelease (t : Time) (n : ℕ) : Except Slip Time := do
  let secondTotal := wrappingAdd 64 t.second n
  let minuteTotal := wrappingAdd 64 t.minute (secondTotal / 60)
  let hourTotal := wrappingAdd 64 t.hour (minuteTotal / 60)
  let dayCarry := hourTotal / 24
  -- the weekday is one to seven, which fits
  let weekday ← rollWeekday t.weekday dayCarry
  rollDaysRelease
    { t with
      weekday
      hour := hourTotal % 24
      minute := minuteTotal % 60
      second := secondTotal % 60 }
    dayCarry

variable {t : Time}

/-- The loop ends, with a date that is valid and the clock as it was. -/
theorem rollDaysRelease_ok (hvalid : t.Valid) (remainingDays : ℕ)
    (hbound : t.day + remainingDays < 2 ^ 64) :
    ∃ t', rollDaysRelease t remainingDays = .ok t' ∧ t'.Valid ∧ t'.secondOfDay = t.secondOfDay := by
  obtain ⟨total, htotal⟩ : ∃ total, remainingDays + t.day = total := ⟨_, rfl⟩
  induction total using Nat.strongRecOn generalizing t remainingDays with
  | ind total ih =>
    rw [rollDaysRelease]
    split_ifs with hnone
    · exact ⟨t, rfl, hvalid, rfl⟩
    obtain ⟨dim, hdim, hlow, hhigh⟩ := daysInMonth_ok t.year hvalid.month
    have hday := hvalid.day
    have hfits : wrappingAdd 64 t.day remainingDays = t.day + remainingDays :=
      Nat.mod_eq_of_lt hbound
    split
    · rename_i slip herror
      rw [hdim] at herror
      cases herror
    · rename_i dim' hdim'
      rw [hdim] at hdim'
      cases hdim'
      split_ifs with hmore
      · refine ⟨_, rfl, { hvalid with day := ?_ }, rfl⟩
        dsimp only
        omega
      · rw [wrappingSub_rest (Nat.lt_of_not_le hmore), hfits]
        obtain ⟨t', ht', hvalid', hclock⟩ := ih (t.day + remainingDays - dim - 1 + 1) (by omega)
          hvalid.nextMonth (t.day + remainingDays - dim - 1)
          (by rw [t.nextMonth_day]; omega) (by rw [t.nextMonth_day])
        refine ⟨t', ht', hvalid', hclock.trans ?_⟩
        unfold Time.nextMonth
        dsimp only
        split_ifs <;> rfl

theorem tickRelease_ok (hvalid : t.Valid) (n : ℕ) : ∃ t', t.tickRelease n = .ok t' ∧ t'.Valid ∧
    (86400 ≤ n ∨ t'.secondOfDay = (t.secondOfDay + n) % 86400) := by
  have hhour := hvalid.hour
  have hminute := hvalid.minute
  have hsecond := hvalid.second
  have hday := hvalid.day
  have hwrap : wrappingAdd 64 t.second n < 2 ^ 64 := Nat.mod_lt _ (by decide)
  have hminutes : wrappingAdd 64 t.minute (wrappingAdd 64 t.second n / 60) =
      t.minute + wrappingAdd 64 t.second n / 60 := Nat.mod_eq_of_lt (by omega)
  have hhours : wrappingAdd 64 t.hour ((t.minute + wrappingAdd 64 t.second n / 60) / 60) =
      t.hour + (t.minute + wrappingAdd 64 t.second n / 60) / 60 := Nat.mod_eq_of_lt (by omega)
  obtain ⟨weekday, hweekday, hlow, hhigh⟩ := rollWeekday_ok hvalid.weekday
    ((t.hour + (t.minute + wrappingAdd 64 t.second n / 60) / 60) / 24)
  have hcarried : Time.Valid { t with
      weekday
      hour := (t.hour + (t.minute + wrappingAdd 64 t.second n / 60) / 60) % 24
      minute := (t.minute + wrappingAdd 64 t.second n / 60) % 60
      second := wrappingAdd 64 t.second n % 60 } :=
    ⟨hvalid.year, hvalid.month, hvalid.day, ⟨hlow, hhigh⟩, Nat.mod_lt _ (by decide),
      Nat.mod_lt _ (by decide), Nat.mod_lt _ (by decide)⟩
  obtain ⟨t', ht', hvalid', hclock⟩ := rollDaysRelease_ok hcarried
    ((t.hour + (t.minute + wrappingAdd 64 t.second n / 60) / 60) / 24)
    (by dsimp only; omega)
  refine ⟨t', ?_, hvalid', ?_⟩
  · unfold Time.tickRelease
    simp only [hminutes, hhours, hweekday]
    exact ht'
  · rw [hclock]
    by_cases hfits : t.second + n < 2 ^ 64
    · rw [show wrappingAdd 64 t.second n = t.second + n from Nat.mod_eq_of_lt hfits]
      unfold Time.secondOfDay
      dsimp only
      omega
    · exact .inl (by omega)

theorem tickRelease_zero (hvalid : t.Valid) : t.tickRelease 0 = .ok t := by
  have hhour := hvalid.hour
  have hminute := hvalid.minute
  have hsecond := hvalid.second
  have hkept (a : ℕ) (h : a < 60) : wrappingAdd 64 a 0 = a := Nat.mod_eq_of_lt (by omega)
  have hroll : rollWeekday t.weekday 0 = .ok t.weekday := rfl
  unfold Time.tickRelease
  simp only [hkept t.second hsecond, Nat.div_eq_of_lt hsecond, hkept t.minute hminute,
    Nat.div_eq_of_lt hminute, hkept t.hour (by omega), Nat.div_eq_of_lt hhour, hroll,
    Nat.mod_eq_of_lt hhour, Nat.mod_eq_of_lt hminute, Nat.mod_eq_of_lt hsecond]
  show rollDaysRelease t 0 = .ok t
  rw [rollDaysRelease, if_pos rfl]

theorem tickRelease_ticks : Ticks Time.tickRelease where
  zero := tickRelease_zero
  valid := by
    intro t t' n ht h
    obtain ⟨t₁, h₁, hvalid, -⟩ := tickRelease_ok ht n
    rw [h₁] at h
    cases h
    exact hvalid
  clock := by
    intro t t' n ht h
    obtain ⟨t₁, h₁, -, hclock⟩ := tickRelease_ok ht n
    rw [h₁] at h
    cases h
    exact hclock

/-- Only an advance and a write of the year take a sum that can leave its type. -/
def Rtc.stepRelease (r : Rtc) : Event → Except Slip Rtc
  | .advance masterTicks elapsedSeconds =>
    (r.advanceMasterTicksBy Time.tickRelease masterTicks elapsedSeconds).map Prod.snd
  | .writePort port value =>
    if port = 0x71 ∧ (r.index &&& 0x7f).toNat = regYear then
      pure (writeTimeRegisters { r with time :=
        { r.time with year := wrappingAdd 16 (r.time.year / 100 * 100) (value.toNat % 100) } })
    else r.writePort port value
  | e => r.step e

theorem stepRelease_valid {r r' : Rtc} (hvalid : r.time.Valid) (e : Event)
    (h : r.stepRelease e = .ok r') : r'.time.Valid := by
  have hstep := (Rtc.step_spec hvalid e).valid r'
  cases e with
  | advance masterTicks elapsedSeconds =>
    obtain ⟨result, hresult, rfl⟩ := of_map_ok h
    obtain ⟨t, ht, rfl⟩ := r.eq_of_advance_ok tickRelease_ticks hvalid hresult
    rw [Rtc.moved_time]
    exact tickRelease_ticks.valid hvalid ht
  | writePort port value =>
    rw [Rtc.stepRelease] at h
    split_ifs at h
    · cases h
      exact { hvalid with year := Nat.mod_lt _ (by decide) }
    · exact hstep h
  | _ => exact hstep h

theorem run_valid_release {events : List Event} {r : Rtc}
    (h : run Rtc.stepRelease events Rtc.initial = .ok r) : r.time.Valid :=
  run_invariant (fun _ e _ hvalid hstep => stepRelease_valid hvalid e hstep) events initial_valid h

end IzarraVM.Cmos
