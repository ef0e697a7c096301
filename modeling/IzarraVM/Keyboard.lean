import IzarraVM.Countdown
import IzarraVM.RatePhase

/-! The 8042 keyboard controller with the PS/2 mouse behind it. -/
namespace IzarraVM.Kbc

abbrev Byte : Type := BitVec 8

def clampI32 (v : ℤ) : ℤ := max (-2 ^ 31) (min v (2 ^ 31 - 1))

def clampInt (v lo hi : ℤ) : ℤ := max lo (min v hi)

structure Mouse where
  queue : List Byte
  reporting : Bool
  sampleRate : Byte
  resolution : Byte
  scaling2to1 : Bool
  buttons : Byte
  expectingData : Option Byte
  deviceId : Byte
  intellimouse : Bool
  rateHistory : Byte × Byte × Byte
  pendingDx : ℤ
  pendingDy : ℤ
  pendingDz : ℤ
  hostButtons : Byte
  deriving DecidableEq, Repr

namespace Mouse

def powerOn : Mouse where
  queue := []
  reporting := false
  sampleRate := 100#8
  resolution := 2#8
  scaling2to1 := false
  buttons := 0#8
  expectingData := none
  deviceId := 0#8
  intellimouse := false
  rateHistory := (0#8, 0#8, 0#8)
  pendingDx := 0
  pendingDy := 0
  pendingDz := 0
  hostButtons := 0#8

variable (m : Mouse)

def hostUpdate (dx dy dz : ℤ) (buttons : Byte) : Mouse :=
  { m with
    pendingDx := clampI32 (m.pendingDx + dx)
    pendingDy := clampI32 (m.pendingDy + dy)
    pendingDz := clampI32 (m.pendingDz + dz)
    hostButtons := buttons &&& 0x07#8 }

def statePending : Bool :=
  m.reporting &&
    (m.pendingDx ≠ 0 || m.pendingDy ≠ 0 || m.pendingDz ≠ 0 || m.hostButtons ≠ m.buttons)

def samplePeriodTicks : ℕ := Timeline.masterClockHz / max m.sampleRate.toNat 1

def dropPending : Mouse :=
  { m with pendingDx := 0, pendingDy := 0, pendingDz := 0, buttons := m.hostButtons }

def setReporting (on : Bool) : Mouse :=
  if on then { m with reporting := true } else { m with reporting := false }.dropPending

def lowByte (v : ℤ) : Byte := BitVec.ofInt 8 v

def packet (dx dy : ℤ) (buttons : Byte) (dz : ℤ) : List Byte :=
  let cx := clampInt dx (-256) 255
  let cy := clampInt (-dy) (-256) 255
  let byte0 := 0x08#8 ||| (buttons &&& 0x07#8) ||| (if cx < 0 then 0x10#8 else 0) |||
    (if cy < 0 then 0x20#8 else 0)
  [byte0, lowByte cx, lowByte cy] ++
    if m.intellimouse then [lowByte (clampInt dz (-8) 7)] else []

def queueMovement (dx dy : ℤ) (buttons : Byte) (dz : ℤ) : Bool × Mouse :=
  let m := { m with buttons := buttons &&& 0x07#8 }
  if !m.reporting then (false, m)
  else (true, { m with queue := m.queue ++ m.packet dx dy buttons dz })

def sample : Bool × Mouse :=
  if !m.reporting then (false, m.dropPending)
  else if !m.statePending ∨ m.queue ≠ [] then (false, m)
  else
    let dx := clampInt m.pendingDx (-256) 255
    let dy := clampInt m.pendingDy (-255) 256
    let dz := if m.intellimouse then clampInt m.pendingDz (-8) 7 else 0
    { m with
      pendingDx := m.pendingDx - dx
      pendingDy := m.pendingDy - dy
      pendingDz := if m.intellimouse then m.pendingDz - dz else 0 }.queueMovement dx dy
        m.hostButtons dz

def enableWheel : Mouse := { m with deviceId := 0x03#8, intellimouse := true }

def setSampleRate (rate : Byte) : Mouse :=
  let m := { m with
    sampleRate := rate
    rateHistory := (m.rateHistory.2.1, m.rateHistory.2.2, rate) }
  if m.rateHistory = (200#8, 100#8, 80#8) then m.enableWheel else m

def setSampleRateCode (code : Byte) : Bool × Mouse :=
  match [10#8, 20#8, 40#8, 60#8, 80#8, 100#8, 200#8][code.toNat]? with
  | some rate => (true, m.setSampleRate rate)
  | none => (false, m)

def reply (bytes : List Byte) : Mouse := { m with queue := m.queue ++ bytes }

def setDefaults : Mouse :=
  { m.setReporting false with
    sampleRate := 100#8
    resolution := 2#8
    scaling2to1 := false
    deviceId := 0x00#8
    intellimouse := false
    rateHistory := (0#8, 0#8, 0#8) }

def statusByte : Byte :=
  (if m.scaling2to1 then 0x10#8 else 0) ||| (if m.reporting then 0x20#8 else 0) |||
    (m.buttons &&& 0x07#8)

def writeByte (value : Byte) : Mouse :=
  match m.expectingData with
  | some command =>
    let m := { m with expectingData := none }
    let m :=
      if command = 0xf3#8 then m.setSampleRate value
      else if command = 0xe8#8 then { m with resolution := value }
      else m
    m.reply [0xfa#8]
  | none =>
    if value = 0xff#8 then m.setDefaults.reply [0xfa#8, 0xaa#8, 0x00#8]
    else if value = 0xf6#8 then m.setDefaults.reply [0xfa#8]
    else if value = 0xf4#8 then { m with reporting := true }.reply [0xfa#8]
    else if value = 0xf5#8 then (m.setReporting false).reply [0xfa#8]
    else if value = 0xf3#8 ∨ value = 0xe8#8 then
      { m with expectingData := some value }.reply [0xfa#8]
    else if value = 0xe7#8 then { m with scaling2to1 := true }.reply [0xfa#8]
    else if value = 0xe6#8 then { m with scaling2to1 := false }.reply [0xfa#8]
    else if value = 0xe9#8 then m.reply [0xfa#8, m.statusByte, m.resolution, m.sampleRate]
    else if value = 0xf2#8 then m.reply [0xfa#8, m.deviceId]
    else m.reply [0xfa#8]

end Mouse

def statusObf : Byte := 0x01#8
def statusIbf : Byte := 0x02#8
def statusSys : Byte := 0x04#8
def statusCmd : Byte := 0x08#8
def statusAux : Byte := 0x20#8

def controllerInputTicks : ℕ := Timeline.masterClockHz / 50000
def deviceByteDelay : ℕ := Timeline.masterClockHz / 1000

inductive PendingInput where
  | command (value : Byte)
  | data (value : Byte)
  deriving DecidableEq, Repr

structure Keyboard where
  queue : List Byte
  output : Option Byte
  outputIsAux : Bool
  status : Byte
  commandByte : Byte
  expectingCommandData : Option Byte
  irqArmed : Bool
  irq12Armed : Bool
  outputPort : Byte
  kbdExpectingData : Option Byte
  scanSet : Byte
  lastByte : Byte
  mouse : Mouse
  pendingInput : Option PendingInput
  inputTicks : ℕ
  deviceByteTicks : Option ℕ
  deviceByteReady : Bool
  mouseSampleTicks : Option ℕ
  deriving DecidableEq, Repr

namespace Keyboard

def powerOn : Keyboard where
  queue := []
  output := none
  outputIsAux := false
  status := statusSys
  commandByte := 0x01#8
  expectingCommandData := none
  irqArmed := false
  irq12Armed := false
  outputPort := 0x03#8
  kbdExpectingData := none
  scanSet := 2#8
  lastByte := 0#8
  mouse := Mouse.powerOn
  pendingInput := none
  inputTicks := 0
  deviceByteTicks := none
  deviceByteReady := false
  mouseSampleTicks := none

variable (k : Keyboard)

def obf : Bool := k.status &&& statusObf ≠ 0

def keyboardEnabled : Bool := k.commandByte &&& 0x10#8 = 0

def auxEnabled : Bool := k.commandByte &&& 0x20#8 = 0

def irq1Enabled : Bool := k.commandByte &&& 0x01#8 ≠ 0

def irq12Enabled : Bool := k.commandByte &&& 0x02#8 ≠ 0

def queuedDeviceByte : Bool :=
  (k.keyboardEnabled && !k.queue.isEmpty) || (k.auxEnabled && !k.mouse.queue.isEmpty)

def scheduleDeviceByteAt (prefixTicks : ℕ) : Keyboard :=
  if !k.obf ∧ !k.deviceByteReady ∧ k.deviceByteTicks = none ∧ k.queuedDeviceByte then
    { k with deviceByteTicks := some (saturatingAdd64 prefixTicks deviceByteDelay) }
  else k

def scheduleDeviceByte : Keyboard := k.scheduleDeviceByteAt 0

def latchKeyboard (code : Byte) (rest : List Byte) : Keyboard :=
  { k with
    queue := rest
    output := some code
    outputIsAux := false
    lastByte := code
    status := (k.status ||| statusObf) &&& ~~~statusAux
    irqArmed := k.irqArmed || k.irq1Enabled
    deviceByteReady := false }

def latchAux (code : Byte) (rest : List Byte) : Keyboard :=
  { k with
    mouse := { k.mouse with queue := rest }
    output := some code
    outputIsAux := true
    status := k.status ||| (statusObf ||| statusAux)
    irq12Armed := k.irq12Armed || k.irq12Enabled
    deviceByteReady := false }

def latchReadyDeviceByte : Keyboard :=
  if k.obf then k
  else
    match k.keyboardEnabled, k.queue with
    | true, code :: rest => k.latchKeyboard code rest
    | _, _ =>
      match k.auxEnabled, k.mouse.queue with
      | true, code :: rest => k.latchAux code rest
      | _, _ => k

def latchIfReady : Keyboard := if k.deviceByteReady then k.latchReadyDeviceByte else k

def armCurrentOutput : Keyboard :=
  if !k.obf then k
  else if k.outputIsAux then { k with irq12Armed := k.irq12Armed || k.irq12Enabled }
  else { k with irqArmed := k.irqArmed || k.irq1Enabled }

def pushScancodes (codes : List Byte) : Keyboard :=
  { k with queue := k.queue ++ codes }.scheduleDeviceByte

def kickMouseSample : Keyboard :=
  if k.mouseSampleTicks.isSome then k
  else
    let (sampled, mouse) := k.mouse.sample
    let k := { k with mouse }
    let k := if sampled then k.scheduleDeviceByte else k
    if k.mouse.statePending then { k with mouseSampleTicks := some k.mouse.samplePeriodTicks } else k

def injectMouse (dx dy : ℤ) (buttons : Byte) : Keyboard :=
  { k with mouse := k.mouse.hostUpdate dx dy 0 buttons }.kickMouseSample

def injectMouseWheel (dz : ℤ) : Keyboard :=
  { k with mouse := k.mouse.hostUpdate 0 0 dz k.mouse.hostButtons }.kickMouseSample

def setMouseReporting (on : Bool) : Keyboard :=
  { k with mouse := k.mouse.setReporting on }.kickMouseSample

def enableMouseWheel : Keyboard := { k with mouse := k.mouse.enableWheel }

def setMouseSampleRateCode (code : Byte) : Keyboard :=
  { k with mouse := (k.mouse.setSampleRateCode code).2 }

def setMouseIrq (on : Bool) : Keyboard :=
  if on then
    { k with
      commandByte := k.commandByte ||| 0x02#8 }.armCurrentOutput.latchIfReady.scheduleDeviceByte
  else { k with commandByte := k.commandByte &&& ~~~0x02#8, irq12Armed := false }

def setA20 (enabled : Bool) : Keyboard :=
  { k with
    outputPort := if enabled then k.outputPort ||| 0x02#8 else k.outputPort &&& ~~~0x02#8 }

def writeKeyboardByte (value : Byte) : Keyboard :=
  match k.kbdExpectingData with
  | some command =>
    let k := { k with kbdExpectingData := none, queue := k.queue ++ [0xfa#8] }
    let k :=
      if command = 0xf0#8 then
        if value = 0x00#8 then { k with queue := k.queue ++ [k.scanSet] }
        else if value = 1#8 ∨ value = 2#8 ∨ value = 3#8 then { k with scanSet := value }
        else k
      else k
    k.scheduleDeviceByte
  | none =>
    if value = 0xff#8 then k.pushScancodes [0xfa#8, 0xaa#8]
    else if value = 0xee#8 then k.pushScancodes [0xee#8]
    else if value = 0xf2#8 then k.pushScancodes [0xfa#8, 0xab#8, 0x41#8]
    else if value = 0xf0#8 ∨ value = 0xf3#8 then
      { k with kbdExpectingData := some value }.pushScancodes [0xfa#8]
    else if value = 0xfe#8 then k.pushScancodes [k.lastByte]
    else k.pushScancodes [0xfa#8]

def pushBack : Keyboard :=
  match k.obf, k.output with
  | true, some latched =>
    if k.outputIsAux then
      { k with
        output := none
        mouse := { k.mouse with queue := latched :: k.mouse.queue }
        deviceByteReady := true }
    else { k with output := none, queue := latched :: k.queue, deviceByteReady := true }
  | _, _ => k

def respondController (response : Byte) : Keyboard :=
  let k := k.pushBack
  { k with
    output := some response
    outputIsAux := false
    status := (k.status ||| statusObf) &&& ~~~statusAux
    irqArmed := k.irqArmed || k.irq1Enabled }

def processData (value : Byte) : Keyboard :=
  match k.expectingCommandData with
  | some command =>
    let k := { k with expectingCommandData := none }
    if command = 0x60#8 then { k with commandByte := value }.armCurrentOutput
    else if command = 0xd4#8 then { k with mouse := k.mouse.writeByte value }.kickMouseSample
    else if command = 0xd1#8 then { k with outputPort := value }
    else k
  | none => k.writeKeyboardByte value

def processCommand (value : Byte) : Keyboard :=
  if value = 0xaa#8 then k.respondController 0x55#8
  else if value = 0xab#8 ∨ value = 0xa9#8 then k.respondController 0x00#8
  else if value = 0x20#8 then k.respondController k.commandByte
  else if value = 0x60#8 ∨ value = 0xd4#8 ∨ value = 0xd1#8 then
    { k with expectingCommandData := some value }
  else if value = 0xa7#8 then { k with commandByte := k.commandByte ||| 0x20#8 }
  else if value = 0xa8#8 then { k with commandByte := k.commandByte &&& ~~~0x20#8 }
  else if value = 0xad#8 then { k with commandByte := k.commandByte ||| 0x10#8 }
  else if value = 0xae#8 then { k with commandByte := k.commandByte &&& ~~~0x10#8 }
  else if value = 0xd0#8 then k.respondController k.outputPort
  else if value = 0xc0#8 then k.respondController 0xa0#8
  else if value = 0xe0#8 then k.respondController 0x03#8
  else k

def processInput (input : PendingInput) : Keyboard :=
  let k := { k with status := k.status &&& ~~~statusIbf }
  let k :=
    match input with
    | .command value => k.processCommand value
    | .data value => k.processData value
  k.latchIfReady.scheduleDeviceByte

def minTicks : Option ℕ → Option ℕ → Option ℕ
  | some a, some b => some (min a b)
  | some a, none => some a
  | none, b => b

def ticksUntilEvent : Option ℕ :=
  minTicks (minTicks (k.pendingInput.map fun _ => k.inputTicks) k.deviceByteTicks)
    k.mouseSampleTicks

def elapse (ticks : ℕ) : Keyboard :=
  { k with
    inputTicks := if k.pendingInput.isSome then k.inputTicks - ticks else k.inputTicks
    deviceByteTicks := k.deviceByteTicks.map (· - ticks)
    mouseSampleTicks := k.mouseSampleTicks.map (· - ticks) }

def inputDue : Keyboard :=
  match k.inputTicks, k.pendingInput with
  | 0, some input => { k with pendingInput := none }.processInput input
  | _, _ => k

def deviceDue : Keyboard :=
  if k.deviceByteTicks = some 0 then
    { k with deviceByteTicks := none, deviceByteReady := true }.latchReadyDeviceByte
  else k

def sampleDue : Keyboard :=
  if k.mouseSampleTicks = some 0 then
    let mouse := k.mouse.sample.2
    { k with
      mouse
      mouseSampleTicks := if mouse.statePending then some mouse.samplePeriodTicks else none }
  else k

def fire : Keyboard := k.inputDue.deviceDue.sampleDue.scheduleDeviceByte

def countdown : Countdown Keyboard where
  next := ticksUntilEvent
  elapse ticks k := k.elapse ticks
  fire := fire

def advanceMasterTicks (ticks : ℕ) : Keyboard := countdown.advance ticks k

def readPortAt (port prefixTicks : ℕ) : Option Byte × Keyboard :=
  if port = 0x60 then
    let value := k.output.getD 0
    (some value, { k with
      status := k.status &&& ~~~(statusObf ||| statusAux)
      outputIsAux := false }.latchIfReady.scheduleDeviceByteAt prefixTicks)
  else if port = 0x64 then (some k.status, k)
  else (none, k)

def writePortAt (port : ℕ) (value : Byte) (prefixTicks : ℕ) : Keyboard :=
  if k.pendingInput.isSome then k
  else if port = 0x60 then
    { k with
      pendingInput := some (.data value)
      inputTicks := saturatingAdd64 prefixTicks controllerInputTicks
      status := (k.status ||| statusIbf) &&& ~~~statusCmd }
  else if port = 0x64 then
    { k with
      pendingInput := some (.command value)
      inputTicks := saturatingAdd64 prefixTicks controllerInputTicks
      status := k.status ||| statusIbf ||| statusCmd }
  else k

end Keyboard

inductive Event where
  | readPort (port prefixTicks : ℕ)
  | writePort (port : ℕ) (value : Byte) (prefixTicks : ℕ)
  | pushScancodes (codes : List Byte)
  | injectMouse (dx dy : ℤ) (buttons : Byte)
  | injectMouseWheel (dz : ℤ)
  | setMouseReporting (on : Bool)
  | enableMouseWheel
  | setMouseSampleRateCode (code : Byte)
  | setMouseIrq (on : Bool)
  | setA20 (enabled : Bool)
  | advance (ticks : ℕ)
  deriving DecidableEq, Repr

def Keyboard.step (k : Keyboard) : Event → Keyboard
  | .readPort port prefixTicks => (k.readPortAt port prefixTicks).2
  | .writePort port value prefixTicks => k.writePortAt port value prefixTicks
  | .pushScancodes codes => k.pushScancodes codes
  | .injectMouse dx dy buttons => k.injectMouse dx dy buttons
  | .injectMouseWheel dz => k.injectMouseWheel dz
  | .setMouseReporting on => k.setMouseReporting on
  | .enableMouseWheel => k.enableMouseWheel
  | .setMouseSampleRateCode code => k.setMouseSampleRateCode code
  | .setMouseIrq on => k.setMouseIrq on
  | .setA20 enabled => k.setA20 enabled
  | .advance ticks => k.advanceMasterTicks ticks

end IzarraVM.Kbc
