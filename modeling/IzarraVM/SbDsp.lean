import IzarraVM.BlockCount
import IzarraVM.MachineWords
import IzarraVM.StepRuns

/-! The Sound Blaster 16 DSP (`dsp.rs`, `pcm.rs`): commands, DMA playback and ADPCM. -/
namespace IzarraVM.SoundBlaster

open BlockCount

def sampleU8 (byte : UInt8) : ℤ := max (-128) (min 127 ((byte.toNat : ℤ) - 128)) * 256

def sampleI8 (byte : UInt8) : ℤ := byte.toInt8.toInt * 256

def sampleI16 (word : UInt16) : ℤ := word.toInt16.toInt

def sampleU16 (word : UInt16) : ℤ := (word - 0x8000).toInt16.toInt

def adpcm4Scale : List ℤ :=
  [0, 1, 2, 3, 4, 5, 6, 7, 0, -1, -2, -3, -4, -5, -6, -7,
    1, 3, 5, 7, 9, 11, 13, 15, -1, -3, -5, -7, -9, -11, -13, -15,
    2, 6, 10, 14, 18, 22, 26, 30, -2, -6, -10, -14, -18, -22, -26, -30,
    4, 12, 20, 28, 36, 44, 52, 60, -4, -12, -20, -28, -36, -44, -52, -60]

def adpcm4Adjust : List ℤ :=
  [0, 0, 0, 0, 0, 16, 16, 16, 0, 0, 0, 0, 0, 16, 16, 16,
    240, 0, 0, 0, 0, 16, 16, 16, 240, 0, 0, 0, 0, 16, 16, 16,
    240, 0, 0, 0, 0, 16, 16, 16, 240, 0, 0, 0, 0, 16, 16, 16,
    240, 0, 0, 0, 0, 0, 0, 0, 240, 0, 0, 0, 0, 0, 0, 0]

def adpcm3Scale : List ℤ :=
  [0, 1, 2, 3, 0, -1, -2, -3,
    1, 3, 5, 7, -1, -3, -5, -7,
    2, 6, 10, 14, -2, -6, -10, -14,
    4, 12, 20, 28, -4, -12, -20, -28,
    5, 15, 25, 35, -5, -15, -25, -35]

def adpcm3Adjust : List ℤ :=
  [0, 0, 0, 8, 0, 0, 0, 8,
    248, 0, 0, 8, 248, 0, 0, 8,
    248, 0, 0, 8, 248, 0, 0, 8,
    248, 0, 0, 8, 248, 0, 0, 8,
    248, 0, 0, 0, 248, 0, 0, 0]

def adpcm2Scale : List ℤ :=
  [0, 1, 0, -1, 1, 3, -1, -3,
    2, 6, -2, -6, 4, 12, -4, -12,
    8, 24, -8, -24, 16, 48, -16, -48]

def adpcm2Adjust : List ℤ :=
  [0, 4, 0, 4,
    252, 4, 252, 4, 252, 4, 252, 4,
    252, 4, 252, 4, 252, 4, 252, 4,
    252, 0, 252, 0]

inductive AdpcmMode where
  | bits4
  /-- 2.6-bit codes, three to a byte. -/
  | bits26
  | bits2
  deriving DecidableEq

def AdpcmMode.tables : AdpcmMode → List ℤ × List ℤ × ℤ
  | .bits4 => (adpcm4Scale, adpcm4Adjust, 63)
  | .bits26 => (adpcm3Scale, adpcm3Adjust, 39)
  | .bits2 => (adpcm2Scale, adpcm2Adjust, 23)

def AdpcmMode.codes (mode : AdpcmMode) (byte : UInt8) : List UInt8 :=
  match mode with
  | .bits4 => [byte >>> 4, byte &&& 0x0f]
  | .bits26 => [(byte >>> 5) &&& 0x07, (byte >>> 2) &&& 0x07, (byte &&& 0x03) <<< 1]
  | .bits2 => [(byte >>> 6) &&& 0x03, (byte >>> 4) &&& 0x03, (byte >>> 2) &&& 0x03, byte &&& 0x03]

structure AdpcmState where
  mode : AdpcmMode
  reference : UInt8
  step : ℤ
  haveref : Bool
  buf : List UInt8
  deriving DecidableEq

def AdpcmState.new (mode : AdpcmMode) (haveref : Bool) : AdpcmState := ⟨mode, 0x80, 0, haveref, []⟩

/-- One code moves the predictor; the decoded sample is the new reference. -/
def AdpcmState.decodeCode (state : AdpcmState) (code : UInt8) : AdpcmState :=
  let (scaleMap, adjustMap, maxIdx) := state.mode.tables
  let samp := (max 0 (min maxIdx ((code.toNat : ℤ) + state.step))).toNat
  let reference := max 0 (min 255 ((state.reference.toNat : ℤ) + scaleMap.getD samp 0))
  { state with
    reference := UInt8.ofNat reference.toNat
    step := (state.step + adjustMap.getD samp 0) % 256 }

def AdpcmState.decodeByte (state : AdpcmState) (byte : UInt8) : AdpcmState :=
  (state.mode.codes byte).foldl (fun state code =>
    let state := state.decodeCode code
    { state with buf := state.buf ++ [state.reference] }) state

def AdpcmState.takeByte (state : AdpcmState) (byte : UInt8) : AdpcmState :=
  if state.haveref then { state with haveref := false, reference := byte, step := 0 }
  else state.decodeByte byte

inductive DspIrqSource where
  | dma8
  | dma16
  deriving DecidableEq

def commandArity (command : UInt8) : ℕ :=
  if command = 0x10 ∨ command = 0xe4 then 1
  else if command = 0xe0 then 1
  else if command = 0x40 then 1
  else if command = 0x41 ∨ command = 0x42 then 2
  else if command = 0x14 then 2
  else if command = 0x24 ∨ command = 0x2c then 2
  else if command = 0x80 then 2
  else if command = 0x38 then 1
  else if command = 0xe2 then 1
  else if command = 0xf9 then 1
  else if command = 0xfa then 2
  else if command = 0x04 ∨ command = 0x0f then 1
  else if command = 0x05 ∨ command = 0x0e then 2
  else if 0x74 ≤ command ∧ command ≤ 0x77 ∨ command = 0x16 ∨ command = 0x17 then 2
  else if command = 0x48 then 2
  else if 0xb0 ≤ command ∧ command ≤ 0xbf then 3
  else if 0xc0 ≤ command ∧ command ≤ 0xcf then 3
  else 0

structure PendingCommand where
  command : UInt8
  args : List UInt8
  short : args.length < commandArity command

structure SbDsp where
  resetMicros : Option ℕ
  readData : List UInt8
  dataAvailable : Bool
  lastRead : UInt8
  pending : Option PendingCommand
  directDacByte : Option UInt8
  testReg : UInt8
  speakerOn : Bool
  uartMidi : Bool
  midiBytesOut : ℕ
  busyCount : UInt8
  ram8051 : UInt8 → UInt8
  rateHz : ℕ
  rateIsByteRate : Bool
  blockSize : ℕ
  blockRemaining : ℕ
  autoInit : Bool
  playing : Bool
  irqPending : Bool
  irqSource : DspIrqSource
  pauseMicros : Option ℕ
  pauseFoldArmed : Bool
  dma16bit : Bool
  stereo : Bool
  sampleSigned : Bool
  pendingStereoLeft : Option ℤ
  sbproStereo : Bool
  adpcm : Option AdpcmState
  /-- What was started, fetched and completed so far. The code keeps no such record. -/
  log : List Mark

def ram8051Defaults : UInt8 → UInt8 := fun index =>
  if index = 0x0e then 0xff else if index = 0x0f then 0x07 else if index = 0x37 then 0x38 else 0

def SbDsp.default : SbDsp where
  resetMicros := none
  readData := []
  dataAvailable := false
  lastRead := 0xff
  pending := none
  directDacByte := none
  testReg := 0
  speakerOn := false
  uartMidi := false
  midiBytesOut := 0
  busyCount := 0
  ram8051 := ram8051Defaults
  rateHz := 22050
  rateIsByteRate := true
  blockSize := 0
  blockRemaining := 0
  autoInit := false
  playing := false
  irqPending := false
  irqSource := .dma8
  pauseMicros := none
  pauseFoldArmed := false
  dma16bit := false
  stereo := false
  sampleSigned := false
  pendingStereoLeft := none
  sbproStereo := false
  adpcm := none
  log := []

namespace SbDsp

variable (d : SbDsp)

def mark (m : Mark) : SbDsp := { d with log := d.log ++ [m] }

def raiseIrq (source : DspIrqSource) : SbDsp :=
  { d with irqPending := true, irqSource := source }

def dmaIrqSource : DspIrqSource := if d.dma16bit then .dma16 else .dma8

def queueRead (byte : UInt8) : SbDsp :=
  { d with readData := d.readData ++ [byte], dataAvailable := true }

def setRam (index value : UInt8) : SbDsp :=
  { d with ram8051 := fun i => if i = index then value else d.ram8051 i }

def advanceReset (micros : ℕ) : SbDsp :=
  match d.resetMicros with
  | none => d
  | some remaining =>
    if remaining - micros = 0 then { d.queueRead 0xaa with resetMicros := none }
    else { d with resetMicros := some (remaining - micros) }

def advancePause (micros : ℕ) : SbDsp :=
  match d.pauseMicros with
  | none => d
  | some remaining =>
    if remaining - micros = 0 then { d.raiseIrq .dma8 with pauseMicros := none }
    else { d with pauseMicros := some (remaining - micros) }

def advanceMicros (micros : ℕ) : SbDsp :=
  { (d.advanceReset micros).advancePause micros with pauseFoldArmed := false }

def armPauseAt (pendingMicros : ℕ) : SbDsp :=
  if d.pauseFoldArmed then
    { d with
      pauseFoldArmed := false
      pauseMicros := d.pauseMicros.map fun remaining => saturatingAdd64 remaining pendingMicros }
  else d

def dspResetSettleMicros : ℕ := 20

def serviceResetAt (pendingMicros : ℕ) : SbDsp :=
  match d.resetMicros with
  | none => d
  | some remaining =>
    if remaining ≤ pendingMicros then { d.queueRead 0xaa with resetMicros := none } else d

def armResetAt (pendingMicros : ℕ) : SbDsp :=
  match d.resetMicros with
  | none => d
  | some _ => { d with resetMicros := some (dspResetSettleMicros + pendingMicros) }

def inlineCount (lo hi : UInt8) : ℕ := lo.toNat + 256 * hi.toNat + 1

def setInlineSize (args : List UInt8) : SbDsp :=
  match args with
  | lo :: hi :: _ => { d with blockSize := inlineCount lo hi }
  | _ => d

def arm8bit (autoInit stereo signed : Bool) : SbDsp :=
  { d with
    dma16bit := false
    stereo := stereo
    sampleSigned := signed
    pendingStereoLeft := none
    adpcm := none
    autoInit := autoInit
    playing := true
    blockRemaining := d.blockSize }.mark (.armed d.blockSize)

def armDma (autoInit : Bool) : SbDsp := d.arm8bit autoInit false false

def armAdpcm (mode : AdpcmMode) (haveref autoInit : Bool) : SbDsp :=
  { d with
    dma16bit := false
    stereo := false
    sampleSigned := false
    pendingStereoLeft := none
    adpcm := some (AdpcmState.new mode haveref)
    autoInit := autoInit
    playing := true
    blockRemaining := d.blockSize }.mark (.armed d.blockSize)

variable (command : UInt8) (args : List UInt8)

def arm16bit : SbDsp :=
  -- an A/D command arms no playback
  if command &&& 0x08 ≠ 0 then d
  else
    let mode := args.getD 0 0
    let count := inlineCount (args.getD 1 0) (args.getD 2 0)
    { d with
      adpcm := none
      dma16bit := true
      stereo := mode &&& 0x20 ≠ 0
      sampleSigned := mode &&& 0x10 ≠ 0
      pendingStereoLeft := none
      autoInit := command &&& 0x04 ≠ 0
      blockSize := count
      blockRemaining := count
      playing := true }.mark (.armed count)

def arm8bitSb16 : SbDsp :=
  if command &&& 0x08 ≠ 0 then d
  else
    let mode := args.getD 0 0
    { d with blockSize := inlineCount (args.getD 1 0) (args.getD 2 0) }.arm8bit
      (command &&& 0x04 ≠ 0) (mode &&& 0x20 ≠ 0) (mode &&& 0x10 ≠ 0)

def dspVersionHi : UInt8 := 4
def dspVersionLo : UInt8 := 5

def identificationText : List UInt8 :=
  [0x43, 0x4f, 0x50, 0x59, 0x52, 0x49, 0x47, 0x48, 0x54, 0x20, 0x28, 0x43, 0x29, 0x20, 0x43, 0x52,
    0x45, 0x41, 0x54, 0x49, 0x56, 0x45, 0x20, 0x54, 0x45, 0x43, 0x48, 0x4e, 0x4f, 0x4c, 0x4f, 0x47,
    0x59, 0x20, 0x4c, 0x54, 0x44, 0x2c, 0x20, 0x31, 0x39, 0x39, 0x32, 0x2e, 0x00]

def setTimeConstant : SbDsp :=
  match args with
  | tc :: _ => { d with rateHz := 1000000 / (256 - tc.toNat), rateIsByteRate := true }
  | [] => d

def setSampleRate : SbDsp :=
  match args with
  | hi :: lo :: _ =>
    ({ d with rateHz := 256 * hi.toNat + lo.toNat, rateIsByteRate := false }.setRam 0x13 lo).setRam
      0x14 hi
  | _ => d

def setInputRate : SbDsp :=
  match args with
  | hi :: lo :: _ => (d.setRam 0x13 lo).setRam 0x14 hi
  | _ => d

def pauseDac : SbDsp :=
  match args with
  | lo :: hi :: _ =>
    let count := lo.toNat + 256 * hi.toNat
    let rate := max d.rateHz 1
    let micros := ((count + 1) * 1000000 + (rate - 1)) / rate
    { d with pauseMicros := some (max micros 1), pauseFoldArmed := true }
  | _ => d

def readRam : SbDsp :=
  match args with
  | index :: _ => d.queueRead (d.ram8051 index)
  | [] => d

def writeRam : SbDsp :=
  match args with
  | index :: value :: _ => d.setRam index value
  | _ => d

def adpcmCommand : AdpcmMode × Bool :=
  if command = 0x74 then (.bits4, false)
  else if command = 0x75 then (.bits4, true)
  else if command = 0x76 then (.bits26, false)
  else if command = 0x77 then (.bits26, true)
  else if command = 0x16 then (.bits2, false)
  else (.bits2, true)

def execute : SbDsp :=
  if command = 0x10 then { d with directDacByte := args.head? }
  else if command = 0x20 then d.queueRead 0x80
  else if command = 0xe4 then { d with testReg := args.headD 0 }
  else if command = 0xe1 then (d.queueRead dspVersionHi).queueRead dspVersionLo
  else if command = 0xe0 then d.queueRead (~~~(args.headD 0))
  else if command = 0xe8 then d.queueRead d.testReg
  else if command = 0xd1 then { d with speakerOn := true }
  else if command = 0xd3 then { d with speakerOn := false }
  else if command = 0xe3 then
    { d with readData := d.readData ++ identificationText, dataAvailable := true }
  else if command = 0x40 then d.setTimeConstant args
  else if command = 0x41 then d.setSampleRate args
  else if command = 0x42 then d.setInputRate args
  else if 0x34 ≤ command ∧ command ≤ 0x37 then { d with uartMidi := true }
  else if command = 0x38 then { d with midiBytesOut := d.midiBytesOut + 1 }
  else if command = 0x48 then d.setInlineSize args
  else if command = 0x14 then (d.setInlineSize args).armDma false
  else if command = 0x1c then d.armDma true
  else if 0x74 ≤ command ∧ command ≤ 0x77 ∨ command = 0x16 ∨ command = 0x17 then
    (d.setInlineSize args).armAdpcm (adpcmCommand command).1 (adpcmCommand command).2 false
  else if command = 0x1f then d.armAdpcm .bits2 true true
  else if command = 0x7d then d.armAdpcm .bits4 true true
  else if command = 0x7f then d.armAdpcm .bits26 true true
  else if command = 0x90 then d.armDma true
  else if command = 0x91 then d.armDma false
  else if 0xb0 ≤ command ∧ command ≤ 0xbf then d.arm16bit command args
  else if 0xc0 ≤ command ∧ command ≤ 0xcf then d.arm8bitSb16 command args
  else if command = 0xd0 ∨ command = 0xd5 then { d with playing := false }
  else if command = 0xd4 ∨ command = 0xd6 then { d with playing := true }
  else if command = 0xd8 then d.queueRead (if d.speakerOn then 0xff else 0x00)
  else if command = 0xd9 then (if d.dma16bit then { d with autoInit := false } else d)
  else if command = 0xda then { d with autoInit := false }
  else if command = 0x80 then d.pauseDac args
  else if command = 0xf2 then d.raiseIrq .dma8
  else if command = 0xf3 then d.raiseIrq .dma16
  else if command = 0xf9 then d.readRam args
  else if command = 0xfa then d.writeRam args
  else d

def dispatch : SbDsp :=
  (d.setRam 0x20 command).execute command args

def writeCommandByte (byte : UInt8) : SbDsp :=
  if d.uartMidi then { d with midiBytesOut := d.midiBytesOut + 1 }
  else
    match d.pending with
    | some p =>
      if h : commandArity p.command ≤ (p.args ++ [byte]).length then
        { d with pending := none }.dispatch p.command (p.args ++ [byte])
      else { d with pending := some ⟨p.command, p.args ++ [byte], Nat.lt_of_not_le h⟩ }
    | none =>
      if h : commandArity byte = 0 then d.dispatch byte []
      else { d with pending := some ⟨byte, [], Nat.pos_of_ne_zero h⟩ }

def resetTransfer : SbDsp :=
  { d with
    resetMicros := some dspResetSettleMicros
    readData := []
    dataAvailable := false
    playing := false
    autoInit := false
    blockRemaining := 0
    irqPending := false
    pauseMicros := none
    pauseFoldArmed := false
    pending := none
    uartMidi := false
    dma16bit := false
    stereo := false
    sampleSigned := false
    pendingStereoLeft := none
    adpcm := none }.mark .dropped

def writePort (port : UInt16) (value : UInt8) : SbDsp × Bool :=
  if port = 0x226 then
    (if value = 0x01 then { d with resetMicros := some 0 } else d.resetTransfer, true)
  else if port = 0x22c then (d.writeCommandByte value, true)
  else (d, false)

def readPort (port : UInt16) : SbDsp × Option UInt8 :=
  if port = 0x22a then
    let byte := d.readData.headD d.lastRead
    ({ d with readData := d.readData.tail, lastRead := byte,
              dataAvailable := !d.readData.tail.isEmpty }, some byte)
  else if port = 0x22c then
    let busyCount := (d.busyCount + 1) &&& 3
    ({ d with busyCount := busyCount }, some (if busyCount &&& 2 ≠ 0 then 0xff else 0x7f))
  else if port = 0x22e ∨ port = 0x22f then
    ({ d with irqPending := false }, some (if d.dataAvailable then 0xff else 0x7f))
  else (d, none)

def takeIrqSource : SbDsp × Option DspIrqSource :=
  if d.irqPending then ({ d with irqPending := false }, some d.irqSource) else (d, none)

def setSbproStereo (on : Bool) : SbDsp :=
  { d with
    pendingStereoLeft := if !on && !d.dma16bit && !d.stereo then none else d.pendingStereoLeft
    sbproStereo := on }

def finishBlock : SbDsp :=
  let d := d.raiseIrq d.dmaIrqSource
  if d.autoInit && 0 < d.blockSize then
    { d with blockRemaining := d.blockSize }.mark (.completed (some d.blockSize))
  else { d with playing := false }.mark (.completed none)

def finishIfEmpty : SbDsp := if d.blockRemaining = 0 then d.finishBlock else d

/-- The loop of `advance_block`. Every round takes a unit at least, so the fuel is enough. -/
def advanceLoop : ℕ → ℕ → SbDsp → SbDsp
  | 0, _, d => d
  | fuel + 1, consumed, d =>
    if 0 < consumed && d.playing then
      let d := d.finishIfEmpty
      if d.playing then
        let step := min consumed d.blockRemaining
        let d := { d with blockRemaining := d.blockRemaining - step }
        advanceLoop fuel (consumed - step) d.finishIfEmpty
      else d
    else d

def advanceBlock (consumed : ℕ) : SbDsp := advanceLoop consumed consumed d

def takeUnit : SbDsp := (d.mark .fetched).advanceBlock 1

def needsOutputTick : Bool :=
  d.playing || d.adpcm.any fun state => !state.buf.isEmpty

def sampleWord (word : UInt16) : ℤ :=
  if d.sampleSigned then sampleI16 word else sampleU16 word

def sampleByte (byte : UInt8) : ℤ :=
  if d.sampleSigned then sampleI8 byte else sampleU8 byte

def answer {α : Type} (supply : List (Option α)) : Option α := supply.head?.join

def renderMono {α : Type} (sample : α → ℤ) (supply : List (Option α)) (d : SbDsp) :
    SbDsp × Option (ℤ × ℤ) :=
  match answer supply with
  | none => (d, none)
  | some unit => (d.takeUnit, some (sample unit, sample unit))

def renderRight {α : Type} (sample : α → ℤ) (supply : List (Option α)) (left : ℤ) (d : SbDsp) :
    SbDsp × Option (ℤ × ℤ) :=
  match answer supply with
  | none => (if d.playing then { d with pendingStereoLeft := some left } else d, none)
  | some unit => (d.takeUnit, some (left, sample unit))

def renderStereo {α : Type} (sample : α → ℤ) (supply : List (Option α)) (d : SbDsp) :
    SbDsp × Option (ℤ × ℤ) :=
  match d.pendingStereoLeft with
  | some left => renderRight sample supply left { d with pendingStereoLeft := none }
  | none =>
    match answer supply with
    | none => (d, none)
    | some unit =>
      if d.takeUnit.playing then renderRight sample supply.tail (sample unit) d.takeUnit
      else (d.takeUnit, none)

def popAdpcmSample : List (Option UInt8) → SbDsp → SbDsp × Option UInt8
  | supply, d =>
    match d.adpcm with
    | none => (d, none)
    | some state =>
      match state.buf with
      | sample :: buf => ({ d with adpcm := some { state with buf := buf } }, some sample)
      | [] =>
        if d.playing then
          match supply with
          | some byte :: supply =>
            popAdpcmSample supply { d.takeUnit with adpcm := some (state.takeByte byte) }
          | _ => (d, none)
        else (d, none)

def bothChannels (byte : UInt8) : ℤ × ℤ := (sampleU8 byte, sampleU8 byte)

def renderFrame (bytes : List (Option UInt8)) (words : List (Option UInt16)) :
    SbDsp × Option (ℤ × ℤ) :=
  -- a pause holds the DAC
  if d.pauseMicros.isSome && d.needsOutputTick then (d, none)
  else if d.adpcm.isSome then
    ((popAdpcmSample bytes d).1, (popAdpcmSample bytes d).2.map bothChannels)
  else if !d.playing then (d, if d.dma16bit then none else d.directDacByte.map bothChannels)
  else if d.dma16bit then
    if !d.stereo then renderMono d.sampleWord words d else renderStereo d.sampleWord words d
  else if d.stereo || d.sbproStereo then renderStereo d.sampleByte bytes d
  else renderMono d.sampleByte bytes d

def framesUntilNextIrq : Option ℕ :=
  if !d.playing then none
  else if d.adpcm.isSome then some 1
  else
    let units := max d.blockRemaining 1
    if d.stereo || (!d.dma16bit && d.sbproStereo) then
      some ((units + (if d.pendingStereoLeft.isSome then 1 else 0) + 1) / 2)
    else some units

end SbDsp

inductive Event where
  | writePort (port : UInt16) (value : UInt8)
  | readPort (port : UInt16)
  | advanceMicros (micros : ℕ)
  | armPauseAt (pendingMicros : ℕ)
  | serviceResetAt (pendingMicros : ℕ)
  | armResetAt (pendingMicros : ℕ)
  | setSbproStereo (on : Bool)
  | takeIrq
  /-- One frame, with what the two DMA channels answer while it is rendered. -/
  | renderFrame (bytes : List (Option UInt8)) (words : List (Option UInt16))

def SbDsp.step (d : SbDsp) : Event → SbDsp
  | .writePort port value => (d.writePort port value).1
  | .readPort port => (d.readPort port).1
  | .advanceMicros micros => d.advanceMicros micros
  | .armPauseAt pendingMicros => d.armPauseAt pendingMicros
  | .serviceResetAt pendingMicros => d.serviceResetAt pendingMicros
  | .armResetAt pendingMicros => d.armResetAt pendingMicros
  | .setSbproStereo on => d.setSbproStereo on
  | .takeIrq => d.takeIrqSource.1
  | .renderFrame bytes words => (d.renderFrame bytes words).1

def SbDsp.after (events : List Event) : SbDsp := Runs.exec SbDsp.step events SbDsp.default

end IzarraVM.SoundBlaster
