import IzarraVM.StepRuns
import IzarraVM.CommonInstances

/-! The FM synthesis chip (`opl.rs`): registers, hardware timers and envelope generators. -/
namespace IzarraVM.Opl
open Function (update)

structure Timer where
  stepUs : ℕ
  count : ℕ
  accumulatedUs : ℕ
  running : Bool
  expired : Bool
  deriving DecidableEq

namespace Timer

def new (stepUs : ℕ) : Timer := ⟨stepUs, 0, 0, false, false⟩

variable (t : Timer)

def start (preset : UInt8) : Timer :=
  { t with count := preset.toNat, accumulatedUs := 0, running := true }

def countUp (preset : UInt8) (t : Timer) : Timer :=
  if 0xff < t.count + 1 then { t with count := preset.toNat, expired := true }
  else { t with count := t.count + 1 }

def drain (preset : UInt8) : ℕ → Timer → Timer
  | 0, t => t
  | fuel + 1, t =>
    if t.stepUs ≤ t.accumulatedUs then
      drain preset fuel
        (countUp preset { t with accumulatedUs := t.accumulatedUs - t.stepUs })
    else t

-- Every turn of the loop takes at least a microsecond off, so the total is fuel enough.
def advance (micros : ℕ) (preset : UInt8) : Timer :=
  if t.running then
    let total := (t.accumulatedUs + micros) % 2 ^ 64
    drain preset total { t with accumulatedUs := total }
  else t

def expiredAfter (microsElapsed : ℕ) : Bool :=
  if t.expired then true
  else if !t.running then false
  else
    let totalUs := min (t.accumulatedUs + microsElapsed) (2 ^ 64 - 1)
    let steps := totalUs / t.stepUs
    0xff < min (t.count + steps) (2 ^ 64 - 1)

def control (start : Bool) (preset : UInt8) : Timer :=
  if start && !t.running then t.start preset else { t with running := start }

end Timer

inductive EgState where
  | attack
  | decay
  | sustain
  | release
  deriving DecidableEq

structure Operator where
  fnum : ℕ
  block : ℕ
  attack : ℕ
  decay : ℕ
  sustain : ℕ
  release : ℕ
  sustained : Bool
  keyScaleRate : Bool
  keyOn : Bool
  egLevel : ℕ
  egState : EgState
  deriving DecidableEq

namespace Operator

def default : Operator := ⟨0, 0, 0, 0, 0, 0, false, false, false, 0x1ff, .release⟩

def keyScaleNumber (op : Operator) (noteSelect : Bool) : ℕ :=
  let bit := (op.fnum >>> if noteSelect then 9 else 8) % 2
  op.block * 2 + bit

def effectiveRate (op : Operator) (rate : ℕ) (noteSelect : Bool) : ℕ :=
  if rate = 0 then 0
  else
    let ksn := op.keyScaleNumber noteSelect
    let offset := if op.keyScaleRate then ksn else ksn >>> 2
    min (4 * rate + offset) 63

def sustainTarget (op : Operator) : ℕ := if op.sustain = 0x0f then 0x1f0 else op.sustain <<< 4

end Operator

def pattern : List (List ℕ) :=
  [[1, 1, 1, 1, 1, 1, 1, 1], [1, 1, 1, 2, 1, 1, 1, 2], [1, 2, 1, 2, 1, 2, 1, 2],
    [1, 2, 2, 2, 1, 2, 2, 2]]

def egIncrement (effectiveRate counter : ℕ) : ℕ :=
  if effectiveRate = 0 then 0
  else
    let rateHi := effectiveRate >>> 2
    let row := pattern.getD (effectiveRate % 4) []
    if rateHi < 13 then
      let shift := 13 - rateHi
      if counter % 2 ^ shift ≠ 0 then 0 else row.getD ((counter >>> shift) % 8) 0
    else row.getD (counter % 8) 0 <<< (rateHi - 13)

namespace Operator

def keyed (op : Operator) : Operator :=
  match op.keyOn, op.egState with
  | true, .release => { op with egState := .attack }
  | true, _ => op
  | false, _ => { op with egState := .release }

def louder : ℕ → ℕ → ℕ
  | 0, level => level
  | turns + 1, level => if level = 0 then 0 else louder turns (level - (level / 8 + 1))

def envelope (op : Operator) (counter : ℕ) (noteSelect : Bool) : Operator :=
  let rate := match op.egState with
    | .attack => op.attack
    | .decay => op.decay
    | .sustain | .release => op.release
  let eff := op.effectiveRate rate noteSelect
  let inc := egIncrement eff counter
  match op.egState with
  | .attack =>
    let level := if 60 ≤ eff then 0 else louder inc op.egLevel
    { op with egLevel := level, egState := if level = 0 then .decay else .attack }
  | .decay =>
    let level := min (op.egLevel + inc) 0x1ff
    if op.sustainTarget ≤ level then { op with egLevel := op.sustainTarget, egState := .sustain }
    else { op with egLevel := level }
  | .sustain => if op.sustained then op else { op with egLevel := min (op.egLevel + inc) 0x1ff }
  | .release => { op with egLevel := min (op.egLevel + inc) 0x1ff }

def advanceEnvelope (op : Operator) (counter : ℕ) (noteSelect : Bool) : Operator :=
  op.keyed.envelope counter noteSelect

end Operator

/-- Of an operator only what its envelope reads: phase, waveform and level scaling shape the
output alone. -/
structure OplChip where
  registers : Fin 2 → UInt8 → UInt8
  timer1 : Timer
  timer2 : Timer
  operators : Fin 36 → Operator
  egCounter : ℕ

def channelOperators (channel : Fin 18) : Fin 36 × Fin 36 :=
  let base := (channel.val / 9) * 18 + (channel.val % 9 / 3) * 6 + channel.val % 9 % 3
  (⟨base, by omega⟩, ⟨base + 3, by omega⟩)

def fourOpPrimaries : List (Fin 18) := [0, 1, 2, 9, 10, 11]

def fourOpPrimary (channel : Fin 18) (mask : UInt8) : Bool :=
  match fourOpPrimaries.idxOf? channel with
  | some bit => mask &&& (1 <<< UInt8.ofNat bit) != 0
  | none => false

def fourOpSecondary (channel : Fin 18) (mask : UInt8) : Bool :=
  3 ≤ channel && fourOpPrimary (channel - 3) mask

def operatorSlot : List UInt8 := [0, 1, 2, 3, 4, 5, 8, 9, 10, 11, 12, 13, 16, 17, 18, 19, 20, 21]

namespace OplChip

def default : OplChip := ⟨fun _ _ => 0, .new 80, .new 320, fun _ => .default, 0⟩

variable (c : OplChip)

def store (bank : Fin 2) (index value : UInt8) : OplChip :=
  { c with registers := update c.registers bank (update (c.registers bank) index value) }

def writeBank (bank : Fin 2) (index value : UInt8) : OplChip :=
  if bank = 0 ∧ index = 0x04 then
    -- IRQ-RESET is exclusive: the other bits of the write are ignored, and it is not stored.
    if value &&& 0x80 ≠ 0 then
      { c with
        timer1 := { c.timer1 with expired := false }
        timer2 := { c.timer2 with expired := false } }
    else
      { c with
        timer1 := c.timer1.control (value &&& 0x01 != 0) (c.registers 0 0x02)
        timer2 := c.timer2.control (value &&& 0x02 != 0) (c.registers 0 0x03) }.store bank index value
  else c.store bank index value

def advanceMicros (micros : ℕ) : OplChip :=
  { c with
    timer1 := c.timer1.advance micros (c.registers 0 0x02)
    timer2 := c.timer2.advance micros (c.registers 0 0x03) }

def statusBits (t1Expired t2Expired : Bool) : UInt8 :=
  let control := c.registers 0 0x04
  let t1Irq := t1Expired && control &&& 0x40 == 0
  let t2Irq := t2Expired && control &&& 0x20 == 0
  (t1Irq || t2Irq).toUInt8 <<< 7 ||| t1Expired.toUInt8 <<< 6 ||| t2Expired.toUInt8 <<< 5

def status : UInt8 := c.statusBits c.timer1.expired c.timer2.expired

def statusAfter (microsElapsed : ℕ) : UInt8 :=
  c.statusBits (c.timer1.expiredAfter microsElapsed) (c.timer2.expiredAfter microsElapsed)

def opl3Enabled : Bool := c.registers 1 0x05 &&& 0x01 != 0

def rhythmEnabled : Bool := c.registers 0 0xbd &&& 0x20 != 0

def fourOpMask : UInt8 := if c.opl3Enabled then c.registers 1 0x04 &&& 0x3f else 0

def noteSelect : Bool := c.registers 0 0x08 &&& 0x40 != 0

def loadOperator (channel : Fin 18) (operator : Fin 36) (op : Operator) : Operator :=
  let regs := c.registers ⟨channel.val / 9, by omega⟩
  let ch := UInt8.ofNat (channel.val % 9)
  let slot := operatorSlot.getD (operator.val % 18) 0
  let r20 := regs (0x20 + slot)
  let ad := regs (0x60 + slot)
  let sr := regs (0x80 + slot)
  { op with
    fnum := (regs (0xa0 + ch)).toNat ||| (regs (0xb0 + ch) &&& 0x03).toNat <<< 8
    block := (regs (0xb0 + ch) >>> 2 &&& 0x07).toNat
    keyScaleRate := r20 &&& 0x10 != 0
    sustained := r20 &&& 0x20 != 0
    attack := (ad >>> 4).toNat
    decay := (ad &&& 0x0f).toNat
    sustain := (sr >>> 4).toNat
    release := (sr &&& 0x0f).toNat
    keyOn := regs (0xb0 + ch) &&& 0x20 != 0 }

def each (ops : List (Fin 36)) (f : Fin 36 → Operator → Operator) : OplChip :=
  ops.foldl (fun c i => { c with operators := update c.operators i (f i (c.operators i)) })
    c

def voice (channel : Fin 18) : List (Fin 36) :=
  let (op1, op2) := channelOperators channel
  if fourOpPrimary channel c.fourOpMask then
    let (op3, op4) := channelOperators (channel + 3)
    [op1, op2, op3, op4]
  else [op1, op2]

def renderChannel (channel : Fin 18) : OplChip :=
  let ops := c.voice channel
  (c.each ops (c.loadOperator channel)).each ops
    fun _ op => op.advanceEnvelope c.egCounter c.noteSelect

def rhythmOps : List (Fin 36) := [12, 15, 13, 14, 16, 17]

def rhythmKey (bd : UInt8) (operator : Fin 36) : Bool :=
  match operator with
  | 12 | 15 => bd &&& 0x10 != 0
  | 13 => bd &&& 0x01 != 0
  | 16 => bd &&& 0x08 != 0
  | 14 => bd &&& 0x04 != 0
  | _ => bd &&& 0x02 != 0

def renderRhythm : OplChip :=
  let bd := c.registers 0 0xbd
  let loaded := c.each rhythmOps fun i => c.loadOperator ⟨6 + (i.val - 12) % 3, by omega⟩ i
  (loaded.each rhythmOps fun i op => { op with keyOn := rhythmKey bd i }).each rhythmOps
    fun _ op => op.advanceEnvelope c.egCounter c.noteSelect

def renderedChannels : List (Fin 18) :=
  ((List.finRange 18).take (if c.opl3Enabled then 18 else 9)).filter fun channel =>
    !(c.rhythmEnabled && 6 ≤ channel && channel ≤ 8) && !fourOpSecondary channel c.fourOpMask

def renderSample : OplChip :=
  let c := { c with egCounter := (c.egCounter + 1) % 2 ^ 32 }
  let rendered := c.renderedChannels.foldl renderChannel c
  if c.rhythmEnabled then rendered.renderRhythm else rendered

/-! A sample changes operators and the envelope counter alone. -/

variable {c : OplChip}

theorem each_eq (ops : List (Fin 36)) (f : Fin 36 → Operator → Operator) :
    ∃ operators, c.each ops f = { c with operators } := by
  unfold each
  induction ops generalizing c with
  | nil => exact ⟨_, rfl⟩
  | cons i ops ih => exact ih

theorem renderChannel_eq (channel : Fin 18) :
    ∃ operators, c.renderChannel channel = { c with operators } := by
  obtain ⟨loaded, hloaded⟩ := c.each_eq (c.voice channel) (c.loadOperator channel)
  rw [renderChannel, hloaded]
  exact each_eq _ _

theorem foldl_renderChannel_eq (channels : List (Fin 18)) :
    ∃ operators, channels.foldl renderChannel c = { c with operators } := by
  induction channels generalizing c with
  | nil => exact ⟨_, rfl⟩
  | cons channel rest ih =>
    obtain ⟨operators, h⟩ := c.renderChannel_eq channel
    rw [List.foldl_cons, h]
    exact ih

theorem renderRhythm_eq : ∃ operators, c.renderRhythm = { c with operators } := by
  obtain ⟨loaded, hloaded⟩ := c.each_eq rhythmOps
    fun i => c.loadOperator ⟨6 + (i.val - 12) % 3, by omega⟩ i
  obtain ⟨keyed, hkeyed⟩ := { c with operators := loaded }.each_eq rhythmOps
    fun i op => { op with keyOn := rhythmKey (c.registers 0 0xbd) i }
  rw [renderRhythm, hloaded, hkeyed]
  exact each_eq _ _

theorem renderSample_eq : ∃ operators, c.renderSample =
    { c with operators, egCounter := (c.egCounter + 1) % 2 ^ 32 } := by
  obtain ⟨rendered, hrendered⟩ := { c with
    egCounter := (c.egCounter + 1) % 2 ^ 32 }.foldl_renderChannel_eq
      (renderedChannels { c with egCounter := (c.egCounter + 1) % 2 ^ 32 })
  rw [renderSample, hrendered]
  split_ifs
  · exact renderRhythm_eq
  · exact ⟨_, rfl⟩

end OplChip

inductive Event where
  | write (bank : Fin 2) (index value : UInt8)
  | advance (micros : ℕ)
  | sample

def OplChip.step (c : OplChip) : Event → OplChip
  | .write bank index value => c.writeBank bank index value
  | .advance micros => c.advanceMicros micros
  | .sample => c.renderSample

end IzarraVM.Opl
