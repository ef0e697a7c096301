import IzarraVM.CheckedRuns
import IzarraVM.RatePhase
import IzarraVM.CommonInstances

/-! The MC146818 clock and its CMOS RAM; arithmetic is checked where it could leave its type. -/
namespace IzarraVM.Cmos

open Checked Timeline

def regSeconds : ℕ := 0x00
def regSecondsAlarm : ℕ := 0x01
def regMinutes : ℕ := 0x02
def regMinutesAlarm : ℕ := 0x03
def regHours : ℕ := 0x04
def regHoursAlarm : ℕ := 0x05
def regWeekday : ℕ := 0x06
def regDay : ℕ := 0x07
def regMonth : ℕ := 0x08
def regYear : ℕ := 0x09
def regA : ℕ := 0x0a
def regB : ℕ := 0x0b
def regC : ℕ := 0x0c
def regD : ℕ := 0x0d
def regDiagnostic : Fin 64 := 0x0e
def regCentury : Fin 64 := 0x32
def regCenturyAlt : Fin 64 := 0x37

def regADefault : UInt8 := 0x26
def regBDefault : UInt8 := 0x06
def regDDefault : UInt8 := 0x80
def regBPie : UInt8 := 0x40
def regBAie : UInt8 := 0x20
def regBUie : UInt8 := 0x10
def regCIrqf : UInt8 := 0x80
def regCPf : UInt8 := 0x40
def regCAf : UInt8 := 0x20
def regCUf : UInt8 := 0x10
def diagBadChecksum : UInt8 := 0x40
def diagPowerLost : UInt8 := 0x80
def centuryDefault : UInt8 := 0x20

def binToBcd (n : ℕ) : UInt8 := UInt8.ofNat (n / 10 * 16) ||| UInt8.ofNat (n % 10)

def bcdToBin (n : UInt8) : ℕ := n.toNat / 16 * 10 + n.toNat % 16

def daysTable : List ℕ := [0, 31, 28, 31, 30, 31, 30, 31, 31, 30, 31, 30, 31]

def isLeapYear (year : ℕ) : Bool :=
  year % 4 == 0 && year % 100 != 0 || year % 400 == 0

def daysInMonth (year month : ℕ) : Except Slip ℕ :=
  if month = 2 ∧ isLeapYear year then .ok 29 else entry daysTable month

structure Time where
  year : ℕ
  month : ℕ
  day : ℕ
  weekday : ℕ
  hour : ℕ
  minute : ℕ
  second : ℕ
deriving DecidableEq

structure Rtc where
  ram : Vector UInt8 64
  index : UInt8
  nmiDisabled : Bool
  time : Time
  seeded : Bool
  nvramDirty : Bool
  periodicPhase : RatePhase masterClockHz

def clamp (value low high : ℕ) : ℕ := min (max value low) high

def Time.nextMonth (t : Time) : Time :=
  let t := { t with day := 1 }
  if t.month = 12 then { t with month := 1, year := (t.year + 1) % 2 ^ 16 }
  else { t with month := t.month + 1 }

def rollDays (t : Time) (remainingDays : ℕ) : Except Slip Time :=
  if remainingDays = 0 then .ok t
  else
    match daysInMonth t.year t.month with
    | .error slip => .error slip
    | .ok dim =>
      match add 64 t.day remainingDays with
      | .error slip => .error slip
      | .ok dayTotal =>
        if dayTotal ≤ dim then .ok { t with day := dayTotal }
        else
          match sub dim t.day with
          | .error slip => .error slip
          | .ok rest =>
            match _hleft : sub remainingDays (rest + 1) with
            | .error slip => .error slip
            | .ok left =>
              rollDays t.nextMonth left
termination_by remainingDays
decreasing_by
  obtain ⟨hle, rfl⟩ := eq_of_sub_ok _hleft
  omega

def rollWeekday (weekday dayCarry : ℕ) : Except Slip ℕ :=
  if 0 < dayCarry then do
    let fromSunday ← sub weekday 1
    let total ← add 16 fromSunday (dayCarry % 7)
    pure (total % 7 + 1)
  else pure weekday

def Time.tick (t : Time) (n : ℕ) : Except Slip Time := do
  let secondTotal ← add 64 t.second n
  let minuteTotal ← add 64 t.minute (secondTotal / 60)
  let hourTotal ← add 64 t.hour (minuteTotal / 60)
  let dayCarry := hourTotal / 24
  let weekday ← rollWeekday t.weekday dayCarry
  rollDays
    { t with
      weekday
      hour := hourTotal % 24
      minute := minuteTotal % 60
      second := secondTotal % 60 }
    dayCarry

namespace Rtc

variable (r : Rtc)

def reg (i : Fin 64) : UInt8 := r.ram.get i

def setReg (i : Fin 64) (value : UInt8) : Rtc := { r with ram := r.ram.set i value }

def readRam (i : ℕ) : Except Slip UInt8 :=
  if h : i < 64 then .ok (r.reg ⟨i, h⟩) else .error .outOfRange

def writeRam (i : ℕ) (value : UInt8) : Except Slip Rtc :=
  if h : i < 64 then .ok (r.setReg ⟨i, h⟩ value) else .error .outOfRange

def writeTimeRegisters : Rtc :=
  let century := binToBcd (r.time.year / 100 % 256)
  ((((((((r.setReg 0x00 (UInt8.ofNat r.time.second)).setReg 0x02 (UInt8.ofNat r.time.minute)).setReg
    0x04 (UInt8.ofNat r.time.hour)).setReg 0x06 (UInt8.ofNat r.time.weekday)).setReg
    0x07 (UInt8.ofNat r.time.day)).setReg 0x08 (UInt8.ofNat r.time.month)).setReg
    0x09 (UInt8.ofNat (r.time.year % 100))).setReg regCentury century).setReg
    regCenturyAlt century

def readTimeRegisters : Except Slip Rtc := do
  let yy := (r.reg 0x09).toNat % 100
  let hundreds ← mul 16 (bcdToBin (r.reg regCentury)) 100
  let year ← add 16 hundreds yy
  pure { r with
    time :=
      { year
        month := clamp (r.reg 0x08).toNat 1 12
        day := clamp (r.reg 0x07).toNat 1 31
        weekday := clamp (r.reg 0x06).toNat 1 7
        hour := min (r.reg 0x04).toNat 23
        minute := min (r.reg 0x02).toNat 59
        second := min (r.reg 0x00).toNat 59 } }

def checksumFor (ram : Vector UInt8 64) : ℕ :=
  ((List.range' 0x10 30).map fun i => (ram[i]?.getD 0).toNat).sum % 2 ^ 16

def refreshChecksum : Rtc :=
  let sum := checksumFor r.ram
  (r.setReg 0x2e (UInt8.ofNat (sum / 256))).setReg 0x2f (UInt8.ofNat sum)

def initial : Rtc :=
  let r : Rtc :=
    { ram := Vector.replicate 64 0
      index := 0
      nmiDisabled := false
      time := { year := 2026, month := 1, day := 1, weekday := 1, hour := 0, minute := 0, second := 0 }
      seeded := false
      nvramDirty := false
      periodicPhase := ⟨0, by decide⟩ }
  (((((r.setReg 0x0a regADefault).setReg 0x0b regBDefault).setReg 0x0d regDDefault).setReg
    regCentury centuryDefault).setReg regCenturyAlt centuryDefault).writeTimeRegisters.refreshChecksum

def seed (time : Time) : Rtc :=
  writeTimeRegisters
    { r with
      time :=
        { year := time.year
          month := clamp time.month 1 12
          day := clamp time.day 1 31
          weekday := clamp time.weekday 1 7
          hour := min time.hour 23
          minute := min time.minute 59
          second := min time.second 59 }
      seeded := true }

/-- The seconds, with the date moved by `tick`: with or without overflow checks. -/
def tickSecondsBy (tick : Time → ℕ → Except Slip Time) (n : ℕ) : Except Slip Rtc :=
  if n = 0 then pure r
  else do
    let time ← tick r.time n
    pure (writeTimeRegisters { r with time })

def tickSeconds (n : ℕ) : Except Slip Rtc := r.tickSecondsBy Time.tick n

def periodicRateHz : ℕ :=
  if (r.reg 0x0a) &&& 0x70 ≠ 0x20 then 0
  else
    match ((r.reg 0x0a) &&& 0x0f).toNat with
    | 0 => 0
    | 1 | 8 => 256
    | 2 | 9 => 128
    | rate => 32768 >>> (rate - 1)

def alarmMatchesTime (hour minute second : ℕ) : Bool :=
  let matching (alarm : UInt8) (now : ℕ) : Bool := 0xc0 ≤ alarm || alarm.toNat == now
  matching (r.reg 0x01) second && matching (r.reg 0x03) minute && matching (r.reg 0x05) hour

def secondsUntilAlarm : Option ℕ :=
  let now := r.time.hour * 3600 + r.time.minute * 60 + r.time.second
  (List.range' 1 86400).find? fun delta =>
    let next := (now + delta) % 86400
    r.alarmMatchesTime (next / 3600) (next / 60 % 60) (next % 60)

def latchInterruptFlags (flags : UInt8) : Bool × Rtc :=
  if flags = 0 then (false, r)
  else
    let wasPending := (r.reg 0x0c) &&& regCIrqf ≠ 0
    let r := r.setReg 0x0c (r.reg 0x0c ||| flags)
    let enables := r.reg 0x0b
    let enabled := (flags &&& regCPf ≠ 0 ∧ enables &&& regBPie ≠ 0) ∨
      (flags &&& regCAf ≠ 0 ∧ enables &&& regBAie ≠ 0) ∨
      (flags &&& regCUf ≠ 0 ∧ enables &&& regBUie ≠ 0)
    let r := if enabled then r.setReg 0x0c (r.reg 0x0c ||| regCIrqf) else r
    (enabled ∧ ¬ wasPending, r)

def advanceMasterTicksBy (tick : Time → ℕ → Except Slip Time) (masterTicks elapsedSeconds : ℕ) :
    Except Slip (Bool × Rtc) := do
  let alarmDue := 0 < elapsedSeconds ∧
    r.secondsUntilAlarm.any fun seconds => seconds ≤ elapsedSeconds
  let r ← r.tickSecondsBy tick elapsedSeconds
  let (periods, phase) := r.periodicPhase.advance masterTicks r.periodicRateHz
  let r := { r with periodicPhase := phase }
  let flags : UInt8 := (if 0 < periods then regCPf else 0) |||
    (if 0 < elapsedSeconds then regCUf else 0) ||| (if alarmDue then regCAf else 0)
  pure (r.latchInterruptFlags flags)

def advanceMasterTicks (masterTicks elapsedSeconds : ℕ) : Except Slip (Bool × Rtc) :=
  r.advanceMasterTicksBy Time.tick masterTicks elapsedSeconds

def ticksUntilPeriodicIrq : Option ℕ :=
  if (r.reg 0x0c) &&& regCIrqf ≠ 0 ∨ (r.reg 0x0b) &&& regBPie = 0 then none
  else r.periodicPhase.ticksUntil 1 r.periodicRateHz

def secondsUntilIrq : Option ℕ :=
  if (r.reg 0x0c) &&& regCIrqf ≠ 0 then none
  else
    let enables := r.reg 0x0b
    let update := if enables &&& regBUie ≠ 0 then some 1 else none
    let alarm := if enables &&& regBAie ≠ 0 then r.secondsUntilAlarm else none
    (update.toList ++ alarm.toList).min?

def setPeriodicInterruptEnabled (enabled : Bool) : Rtc :=
  if enabled then r.setReg 0x0b (r.reg 0x0b ||| regBPie)
  else r.setReg 0x0b (r.reg 0x0b &&& ~~~regBPie)

def setAlarm (hour minute second : UInt8) : Rtc :=
  if (r.reg 0x0b) &&& regBAie ≠ 0 then r
  else
    (((r.setReg 0x05 hour).setReg 0x03 minute).setReg 0x01 second).setReg 0x0b
      ((r.reg 0x0b &&& ~~~0x80) ||| regBAie ||| regBDefault)

def cancelAlarm : Rtc :=
  r.setReg 0x0b ((r.reg 0x0b &&& ~~~(regBAie ||| 0x80)) ||| regBDefault)

def readData : Except Slip (UInt8 × Rtc) := do
  let value ← r.readRam (r.index &&& 0x3f).toNat
  pure (value, if (r.index &&& 0x7f).toNat = regC then r.setReg 0x0c 0 else r)

def writeRegister (register : ℕ) (value : UInt8) : Except Slip Rtc :=
  let v := value.toNat
  if register = regSeconds then pure { r with time := { r.time with second := min v 59 } }
  else if register = regMinutes then pure { r with time := { r.time with minute := min v 59 } }
  else if register = regHours then pure { r with time := { r.time with hour := min v 23 } }
  else if register = regWeekday then pure { r with time := { r.time with weekday := clamp v 1 7 } }
  else if register = regDay then pure { r with time := { r.time with day := clamp v 1 31 } }
  else if register = regMonth then pure { r with time := { r.time with month := clamp v 1 12 } }
  else if register = regYear then do
    let year ← add 16 (r.time.year / 100 * 100) (v % 100)
    pure { r with time := { r.time with year } }
  else if register = regSecondsAlarm ∨ register = regMinutesAlarm ∨ register = regHoursAlarm then
    r.writeRam register value
  else if register = regA then
    let value := value &&& 0x7f
    pure ({ r with
      periodicPhase := if r.reg 0x0a ≠ value then ⟨0, by decide⟩ else r.periodicPhase }.setReg
      0x0a value)
  else if register = regB then pure (r.setReg 0x0b (value ||| regBDefault))
  else if register = regC ∨ register = regD then pure r
  else do
    let r ← r.writeRam register value
    let r := { r with nvramDirty := true }
    if register = regCentury then (r.setReg regCenturyAlt value).readTimeRegisters else pure r

def writeData (value : UInt8) : Except Slip Rtc := do
  let register := (r.index &&& 0x7f).toNat
  let r ← r.writeRegister register value
  pure (if register ≤ regYear then r.writeTimeRegisters else r)

def readPort (port : ℕ) : Except Slip (Option UInt8 × Rtc) :=
  if port = 0x70 then
    pure (some ((r.index &&& 0x7f) ||| (if r.nmiDisabled then 0x80 else 0)), r)
  else if port = 0x71 then do
    let (value, r) ← r.readData
    pure (some value, r)
  else pure (none, r)

def writePort (port : ℕ) (value : UInt8) : Except Slip Rtc :=
  if port = 0x70 then
    pure { r with index := value &&& 0x7f, nmiDisabled := value &&& 0x80 ≠ 0 }
  else if port = 0x71 then r.writeData value
  else pure r

def loadNvram (bytes : Vector UInt8 64) : Except Slip (Bool × Rtc) :=
  let stored := (bytes.get 0x2e).toNat * 256 + (bytes.get 0x2f).toNat
  let powerLost := bytes.get 0x0d &&& 0x80 = 0
  let r := { r with periodicPhase := ⟨0, by decide⟩ }
  if stored ≠ checksumFor bytes then
    let r := r.setReg regDiagnostic (diagBadChecksum ||| if powerLost then diagPowerLost else 0)
    let r := (r.setReg 0x0b (r.reg 0x0b ||| 0x06)).setReg 0x0d (r.reg 0x0d ||| 0x80)
    pure (false, { r.refreshChecksum with nvramDirty := true })
  else do
    let r := { r with ram := bytes }
    let r := if r.reg regCentury = 0 then
        (r.setReg regCentury centuryDefault).setReg regCenturyAlt centuryDefault
      else r
    let r := (r.setReg 0x0b (r.reg 0x0b ||| 0x06)).setReg 0x0d (r.reg 0x0d ||| 0x80)
    let r ← r.readTimeRegisters
    pure (true, r.setReg regDiagnostic (if powerLost then diagPowerLost else 0))

def setCentury (century : ℕ) : Except Slip Rtc :=
  let bcd := binToBcd century
  ((r.setReg regCentury bcd).setReg regCenturyAlt bcd).readTimeRegisters

end Rtc

inductive Event where
  | writePort (port : ℕ) (value : UInt8)
  | readPort (port : ℕ)
  | advance (masterTicks elapsedSeconds : ℕ)
  | setPeriodicInterruptEnabled (enabled : Bool)
  | setAlarm (hour minute second : UInt8)
  | cancelAlarm
  | setCentury (century : UInt8)
  | seed (year : UInt16) (month day weekday hour minute second : UInt8)
  | loadNvram (bytes : Vector UInt8 64)

def Rtc.step (r : Rtc) : Event → Except Slip Rtc
  | .writePort port value => r.writePort port value
  | .readPort port => (r.readPort port).map Prod.snd
  | .advance masterTicks elapsedSeconds =>
    (r.advanceMasterTicks masterTicks elapsedSeconds).map Prod.snd
  | .setPeriodicInterruptEnabled enabled => pure (r.setPeriodicInterruptEnabled enabled)
  | .setAlarm hour minute second => pure (r.setAlarm hour minute second)
  | .cancelAlarm => pure r.cancelAlarm
  | .setCentury century => r.setCentury century.toNat
  | .seed year month day weekday hour minute second =>
    pure (r.seed
      { year := year.toNat
        month := month.toNat
        day := day.toNat
        weekday := weekday.toNat
        hour := hour.toNat
        minute := minute.toNat
        second := second.toNat })
  | .loadNvram bytes => (r.loadNvram bytes).map Prod.snd

end IzarraVM.Cmos
