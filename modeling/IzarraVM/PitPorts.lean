import IzarraVM.Pit

/-! The ports and the GATE inputs of the 8254, and the peeks, told without stepping. -/
namespace IzarraVM.Timer

def mask16 (value : ℕ) : UInt16 := UInt16.ofNat value

namespace Counter

variable (c : Counter)

def riseFrom (value : UInt32) : Option ℕ :=
  let v := value.toNat
  let reload := c.effectiveReload.toNat
  match c.mode with
  | 0 | 1 => if c.out ∨ v = 0 then none else some v
  | 2 =>
    if c.out = false then some 1
    else if 2 ≤ v then some v
    else if 2 ≤ reload then some (1 + reload)
    else none
  | 3 => if c.out then some (mode3Half v true + mode3Half reload false) else some (mode3Half v false)
  | 4 | 5 => if c.out = false then some 1 else if v = 0 then none else some (v + 1)
  | _ => none

def clocksUntilOutRise : Option ℕ :=
  if c.bcd then none
  else match c.state with
    | .inactive | .waitGate => none
    | .loadDelay =>
      if c.gate = false then none else (c.riseFrom c.effectiveReload).map fun steps => steps + 1
    | .counting => if c.gate = false then none else c.riseFrom c.count

def gateLowOut (forced : Bool) : Bool := if forced ∧ (c.mode = 2 ∨ c.mode = 3) then true else c.out

def countingOutAfter (mode value reload : ℕ) (out : Bool) (clocks : ℕ) : Bool :=
  if clocks = 0 then out
  else match mode with
    | 0 | 1 => if out ∨ value = 0 then out else decide (value ≤ clocks)
    | 2 =>
      let firstReloadAt := if 2 ≤ value then value else 1
      if clocks < firstReloadAt then if clocks + 1 = firstReloadAt then false else out
      else if reload ≤ 1 then true
      else
        let phase := (clocks - firstReloadAt) % reload
        decide (phase + 1 ≠ reload)
    | 3 =>
      let toToggle := mode3Half value out
      if clocks < toToggle then out
      else
        let rem := clocks - toToggle
        let level := !out
        if reload ≤ 1 then if rem % 2 = 0 then level else !level
        else
          let phase := rem % reload
          let half := mode3Half reload level
          if phase < half then level else !level
    | 4 | 5 =>
      if out = false then true
      else if value = 0 then out
      else decide (clocks ≠ value)
    | _ => out

variable (clocks : ℕ)

def outAfter : Option Bool :=
  if c.bcd then none
  else match c.state with
    | .inactive | .waitGate => some c.out
    | .loadDelay =>
      if c.gate = false then some (c.gateLowOut (2 ≤ clocks))
      else if clocks = 0 then some c.out
      else
        let reload := c.effectiveReload.toNat
        some (countingOutAfter c.mode reload reload c.out (clocks - 1))
    | .counting =>
      if c.gate = false then some (c.gateLowOut (1 ≤ clocks))
      else some (countingOutAfter c.mode c.count.toNat c.effectiveReload.toNat c.out clocks)

def maskedCount : UInt16 := mask16 c.count.toNat

def countingCountAfter (mode : ℕ) (value reload : UInt32) (out : Bool) (clocks : ℕ) : UInt16 :=
  let v := value.toNat
  if clocks = 0 then mask16 v
  else
    let r := reload.toNat
    match mode with
    | 0 => mask16 (wrap32 v clocks)
    | 1 =>
      let toZero := if v = 0 then 2 ^ 32 else v
      if out = false ∧ toZero ≤ clocks then 0 else mask16 (wrap32 v clocks)
    | 2 =>
      let reloadAt := if 2 ≤ v then v else 1
      if clocks < reloadAt then mask16 (v - clocks) else mask16 (r - (clocks - reloadAt) % r)
    | 3 =>
      let toToggle := mode3Half v out
      if clocks < toToggle then mask16 (mode3ValueInHalf v out clocks)
      else if r ≤ 1 then mask16 r
      else
        let rem := (clocks - toToggle) % r
        let firstLevel := !out
        let firstHalf := mode3Half r firstLevel
        if rem < firstHalf then mask16 (mode3ValueInHalf r firstLevel rem)
        else mask16 (mode3ValueInHalf r out (rem - firstHalf))
    | 4 | 5 =>
      if out = false then mask16 v
      else
        let toZero := if v = 0 then 2 ^ 32 else v
        if toZero ≤ clocks then 0 else mask16 (wrap32 v clocks)
    | _ => mask16 v

def countAfter : Option UInt16 :=
  if c.bcd then none
  else match c.state with
    | .inactive | .waitGate => some c.maskedCount
    | .loadDelay =>
      if clocks = 0 then some c.maskedCount
      else
        let reload := c.effectiveReload
        if c.gate = false then some (mask16 reload.toNat)
        else some (countingCountAfter c.mode reload reload c.out (clocks - 1))
    | .counting =>
      if c.gate = false then some c.maskedCount
      else some (countingCountAfter c.mode c.count c.effectiveReload c.out clocks)

def nullCountAfter : Bool :=
  match c.state with
  | .loadDelay => if 1 ≤ clocks then false else c.nullCount
  | _ => c.nullCount

def liveCount : UInt16 := (c.countAfter clocks).getD c.maskedCount

def latchCount : Counter :=
  if c.latch = none then { c with latch := some (c.liveCount clocks) } else c

def rwBits : RwMode → UInt8
  | .lsb => 1
  | .msb => 2
  | .lsbThenMsb => 3

def latchStatus : Counter :=
  if c.statusLatch = none then
    let out := (c.outAfter clocks).getD c.out
    let nullCount := c.nullCountAfter clocks
    { c with
      statusLatch := some ((out.toUInt8 <<< 7) ||| (nullCount.toUInt8 <<< 6) ||| (rwBits c.rw <<< 4) |||
        (UInt8.ofNat c.mode <<< 1) ||| c.bcd.toUInt8) }
  else c

variable (value : UInt8)

def readBack (clocks : ℕ) : Counter :=
  let c := if value &&& 0x20 = 0 then c.latchCount clocks else c
  if value &&& 0x10 = 0 then c.latchStatus clocks else c

def writeControl (clocks : ℕ) : Counter :=
  let rwField := (value >>> 4) &&& 0x3
  if rwField = 0 then c.latchCount clocks
  else
    let mode := match ((value >>> 1) &&& 0x7).toNat with
      | 6 => 2
      | 7 => 3
      | m => m
    { c with
      rw := if rwField = 1 then .lsb else if rwField = 2 then .msb else .lsbThenMsb
      mode
      bcd := value &&& 1 ≠ 0
      out := mode ≠ 0
      state := .inactive
      nullCount := true
      writeMsbNext := false
      readMsbNext := false
      latch := none
      statusLatch := none }

def arm : Counter :=
  { c with
    nullCount := true
    state := match c.mode with
      | 1 | 5 => if c.state ≠ .counting then .waitGate else c.state
      | 2 | 3 => if c.state ≠ .counting then .loadDelay else c.state
      | _ => .loadDelay }

def setLow : Counter := { c with reload := (c.reload &&& 0xff00) ||| value.toUInt16 }

def setHigh : Counter :=
  { c with reload := (c.reload &&& (0x00ff : UInt16)) ||| (value.toUInt16 <<< (8 : UInt16)) }

def writeCount : Counter :=
  match c.rw with
  | .lsb => (c.setLow value).arm
  | .msb => (c.setHigh value).arm
  | .lsbThenMsb =>
    if c.writeMsbNext = false then
      let c := { c.setLow value with writeMsbNext := true }
      -- the first byte stops a mode 0 count
      if c.mode = 0 then { c with out := false, state := .inactive } else c
    else { c.setHigh value with writeMsbNext := false }.arm

def read : UInt8 × Counter :=
  match c.statusLatch with
  | some status => (status, { c with statusLatch := none })
  | none =>
    let value := c.latch.getD (c.liveCount clocks)
    match c.rw with
    | .lsb => ((value &&& 0xff).toUInt8, { c with latch := none })
    | .msb => ((value >>> 8).toUInt8, { c with latch := none })
    | .lsbThenMsb =>
      if c.readMsbNext = false then ((value &&& 0xff).toUInt8, { c with readMsbNext := true })
      else ((value >>> 8).toUInt8, { c with readMsbNext := false, latch := none })

def setGate (level : Bool) : Counter :=
  let rising := !c.gate && level
  let falling := c.gate && !level
  let c := { c with gate := level }
  if rising then
    match c.mode with
    | 1 => { c with count := c.effectiveReload, out := false, state := .counting }
    | 5 => { c with count := c.effectiveReload, out := true, state := .counting }
    | 2 | 3 => { c with state := .loadDelay }
    | _ => c
  else if falling ∧ (c.mode = 2 ∨ c.mode = 3) then { c with out := true }
  else c

def firstRise : Counter → ℕ → Option ℕ
  | _, 0 => none
  | c, limit + 1 => if c.step.2 then some 1 else (firstRise c.step.1 limit).map fun clock => clock + 1

end Counter

namespace Pit

variable (pit : Pit)

def onChannel (channel : ℕ) (f : Counter → Counter) : Pit :=
  ⟨pit.counters.mapIdx fun i c => if i = channel then f c else c⟩

def writeControlWord (value : UInt8) (clocks : ℕ) : Pit :=
  let sc := (value >>> 6) &&& 0x3
  if sc = 3 then
    if value &&& 0x20 ≠ 0 ∧ value &&& 0x10 ≠ 0 then pit
    else
      ⟨pit.counters.mapIdx fun i c =>
        if value &&& (1 <<< UInt8.ofNat (i + 1)) ≠ 0 then c.readBack value clocks else c⟩
  else pit.onChannel sc.toNat fun c => c.writeControl value clocks

def writePortAt (port : UInt16) (value : UInt8) (clocks : ℕ) : Bool × Pit :=
  if 0x40 ≤ port ∧ port ≤ 0x42 then
    (true, pit.onChannel (port - 0x40).toNat fun c => c.writeCount value)
  else if port = 0x43 then (true, pit.writeControlWord value clocks)
  else (false, pit)

def readPortAt (port : UInt16) (clocks : ℕ) : Option UInt8 × Pit :=
  if 0x40 ≤ port ∧ port ≤ 0x42 then
    let channel := (port - 0x40).toNat
    ((pit.counters[channel]?).map fun c => (c.read clocks).1,
      pit.onChannel channel fun c => (c.read clocks).2)
  else (none, pit)

def counterIsBcd (port : UInt16) : Bool :=
  if 0x40 ≤ port ∧ port ≤ 0x42 then ((pit.counters[(port - 0x40).toNat]?).map (·.bcd)).getD false
  else false

def setGate (channel : ℕ) (level : Bool) : Pit := pit.onChannel channel fun c => c.setGate level

def outAfter (channel clocks : ℕ) : Option Bool := (pit.counters[channel]?).bind (·.outAfter clocks)

def clocksUntilOutRise (channel : ℕ) : Option ℕ := (pit.counters[channel]?).bind (·.clocksUntilOutRise)

def clocksUntilChannel0Irq : Option ℕ :=
  pit.first.firstRise 65537

def refreshDivisor : UInt16 := 18

def powerOn : Pit :=
  let pit : Pit := ⟨Vector.replicate 3 Counter.powerOn⟩
  ((pit.writeControlWord 0x74 0).onChannel 1 fun c =>
    c.writeCount (refreshDivisor &&& 0xff).toUInt8).onChannel 1 fun c =>
      c.writeCount (refreshDivisor >>> 8).toUInt8

end Pit

end IzarraVM.Timer
