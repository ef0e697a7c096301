import IzarraVM.MargoBlits

/-! The 2D engine as a device (`margo.rs`, `margo/modes.rs`, `margo/registers.rs`). -/
namespace IzarraVM.Margo

open Moves

structure VbeMode where
  number : ℕ
  width : ℕ
  height : ℕ
  bpp : ℕ
  deriving DecidableEq

def vbeModes : List VbeMode :=
  [⟨0x100, 640, 400, 8⟩, ⟨0x101, 640, 480, 8⟩, ⟨0x103, 800, 600, 8⟩, ⟨0x105, 1024, 768, 8⟩,
    ⟨0x110, 640, 480, 15⟩, ⟨0x111, 640, 480, 16⟩, ⟨0x113, 800, 600, 15⟩, ⟨0x114, 800, 600, 16⟩,
    ⟨0x116, 1024, 768, 15⟩, ⟨0x117, 1024, 768, 16⟩, ⟨0x14a, 640, 480, 32⟩, ⟨0x14c, 800, 600, 32⟩,
    ⟨0x14e, 1024, 768, 32⟩, ⟨0x150, 320, 240, 8⟩]

def vbeMode (number : ℕ) : Option VbeMode := vbeModes.find? fun mode => mode.number = number

def bytesPerPixel (bpp : ℕ) : ℕ := (bpp + 7) / 8

structure Display where
  mode : ℕ
  width : ℕ
  height : ℕ
  bpp : ℕ
  pitch : ℕ
  start : ℕ
  deriving DecidableEq

def regControl : ℕ := 0x000c
def regDispStart : ℕ := 0x0024
def regCursorCtrl : ℕ := 0x0028
def regCursorAddr : ℕ := 0x002c
def regCursorPos : ℕ := 0x0030
def regCursorFg : ℕ := 0x0034
def regCursorBg : ℕ := 0x0038
def regOvlCtrl : ℕ := 0x0040
def regOvlSrcY : ℕ := 0x0044
def regOvlSrcPitch : ℕ := 0x0048
def regOvlSrcDim : ℕ := 0x004c
def regOvlSrcU : ℕ := 0x0050
def regOvlSrcV : ℕ := 0x0054
def regOvlDstXy : ℕ := 0x0058
def regOvlDstDim : ℕ := 0x005c
def regOvlColorkey : ℕ := 0x0060
def regDstBase : ℕ := 0x0100
def regDstPitch : ℕ := 0x0104
def regSrcBase : ℕ := 0x0108
def regSrcPitch : ℕ := 0x010c
def regDepth : ℕ := 0x0110
def regDstXy : ℕ := 0x0114
def regSrcXy : ℕ := 0x0118
def regDim : ℕ := 0x011c
def regFgColor : ℕ := 0x0120
def regBgColor : ℕ := 0x0124
def regRop : ℕ := 0x0128
def regColorkey : ℕ := 0x012c
def regFlags : ℕ := 0x0130
def regClipTl : ℕ := 0x0134
def regClipBr : ℕ := 0x0138
def regLineStart : ℕ := 0x013c
def regLineEnd : ℕ := 0x0140
def regPatBase : ℕ := 0x0144
def regCommand : ℕ := 0x0150
def regMonoData : ℕ := 0x0160

def cursorBase : ℕ := 0x0028
def cursorRegs : ℕ := 5
def ovlBase : ℕ := 0x0040
def ovlRegs : ℕ := 9
def blitBase : ℕ := 0x0100
def blitRegs : ℕ := 20

abbrev Registers := ℕ → BitVec 32

def Registers.set (regs : Registers) (index : ℕ) (value : BitVec 32) : Registers :=
  fun i => if i = index then value else regs i

variable (word : BitVec 32)

def withByte (byte : ℕ) (value : UInt8) : BitVec 32 :=
  (word &&& ~~~(0xff#32 <<< (8 * byte))) ||| (BitVec.ofNat 32 value.toNat <<< (8 * byte))

def low16 : ℕ := (word &&& 0xffff#32).toNat

def high16 : ℕ := (word >>> 16).toNat

def lowByte : UInt8 := UInt8.ofNat word.toNat

theorem low16_lt : low16 word < 2 ^ 16 := by
  unfold low16
  rw [BitVec.toNat_and]
  exact Nat.lt_succ_of_le Nat.and_le_right

theorem high16_lt : high16 word < 2 ^ 16 := by
  have hword := word.isLt
  unfold high16
  rw [BitVec.toNat_ushiftRight, Nat.shiftRight_eq_div_pow]
  omega

structure ExpandState where
  params : ExpandParams
  wordsPerRow : ℕ
  totalWords : ℕ
  wordsReceived : ℕ
  written : ℕ

structure Device where
  vram : FrameStore
  display : Display
  contentGeneration : ℕ
  rowGenerations : List ℕ
  displayStartLatch : BitVec 32
  displayStartPending : Bool
  control : BitVec 32
  blit : Registers
  command : BitVec 32
  busyNs : ℕ
  busyCreditNs : ℕ
  busyStamp : ℕ
  expand : Option ExpandState
  monoData : BitVec 32
  cursor : Registers
  overlay : Registers

def vramSize : ℕ := 4 * 1024 * 1024

def Device.default : Device where
  vram := ⟨vramSize, fun _ => 0, by decide⟩
  display := ⟨0, 0, 0, 0, 0, 0⟩
  contentGeneration := 0
  rowGenerations := []
  displayStartLatch := 0
  displayStartPending := false
  control := 0
  blit := fun _ => 0
  command := 0
  busyNs := 0
  busyCreditNs := 0
  busyStamp := 0
  expand := none
  monoData := 0
  cursor := fun _ => 0
  overlay := fun _ => 0

namespace Device

variable (m : Device)

variable (offset : ℕ)

def blitReg : BitVec 32 := m.blit ((offset - blitBase) / 4)

def cursorReg : BitVec 32 := m.cursor ((offset - cursorBase) / 4)

def overlayReg : BitVec 32 := m.overlay ((offset - ovlBase) / 4)

def overlayEnabled : Bool := (m.overlayReg regOvlCtrl).getLsbD 0

def cursorEnabled : Bool := (m.cursorReg regCursorCtrl).getLsbD 0

def resize (rows : List ℕ) (height : ℕ) : List ℕ :=
  rows.take height ++ List.replicate (height - rows.length) 0

def markFullDamage : Device :=
  let rows := resize m.rowGenerations m.display.height
  if 0 < m.display.height then
    let generation := (m.contentGeneration + 1) % 2 ^ 64
    { m with contentGeneration := generation, rowGenerations := rows.map fun _ => generation }
  else { m with rowGenerations := rows }

def markRows (first last : ℕ) : Device :=
  let start := min first m.display.height
  let stop := min last m.display.height
  if stop ≤ start then m
  else
    let rows := resize m.rowGenerations m.display.height
    let generation := (m.contentGeneration + 1) % 2 ^ 64
    { m with
      contentGeneration := generation
      rowGenerations := rows.take start ++ List.replicate (stop - start) generation ++ rows.drop stop }

def noteVramWrite (offset bytes : ℕ) : Device :=
  match checkedAdd64 offset bytes with
  | none => m
  | some writeEnd =>
    if bytes = 0 then m
    else if m.overlayEnabled then m.markFullDamage
    else
      let cursorStart := (m.cursorReg regCursorAddr).toNat
      let cursorEnd := saturatingAdd64 cursorStart 1024
      if m.cursorEnabled ∧ offset < cursorEnd ∧ cursorStart < writeEnd then m.markFullDamage
      else
        let pitch := m.display.pitch
        let height := m.display.height
        if pitch = 0 ∨ height = 0 then m
        else
          let visibleStart := m.display.start
          let visibleEnd := saturatingAdd64 visibleStart (saturatingMul64 pitch height)
          let start := max offset visibleStart
          let stop := min writeEnd visibleEnd
          if stop ≤ start then m
          else
            let first := (start - visibleStart) / pitch
            let last := (stop - 1 - visibleStart) / pitch
            m.markRows first (saturatingAdd64 last 1)

def rowDirty (generation changed : ℕ) : Bool :=
  (changed + (2 ^ 64 - generation)) % 2 ^ 64 < 2 ^ 63 && changed != generation

structure RowScan where
  ranges : List (ℕ × ℕ)
  start : Option ℕ
  row : ℕ

def scanRow (generation : ℕ) (s : RowScan) (changed : ℕ) : RowScan :=
  let dirty := rowDirty generation changed
  match s.start, dirty with
  | none, true => { s with start := some s.row, row := s.row + 1 }
  | some first, false =>
    { ranges := s.ranges ++ [(first, s.row)], start := none, row := s.row + 1 }
  | _, _ => { s with row := s.row + 1 }

def changedRowsSince (generation : ℕ) : List (ℕ × ℕ) :=
  let s := m.rowGenerations.foldl (scanRow generation) ⟨[], none, 0⟩
  match s.start with
  | some first => s.ranges ++ [(first, m.rowGenerations.length)]
  | none => s.ranges

def setMode (number : ℕ) : Device :=
  match vbeMode number with
  | none => m
  | some mode =>
    markFullDamage { m with
      display := ⟨mode.number, mode.width, mode.height, mode.bpp,
        mode.width * bytesPerPixel mode.bpp, 0⟩
      displayStartLatch := 0
      displayStartPending := false }

def displayStartAvailable (start : BitVec 32) : Bool :=
  let visibleBytes := m.display.pitch * m.display.height
  0 < visibleBytes && saturatingAdd64 start.toNat visibleBytes ≤ m.vram.len

def programDisplayStart (start : BitVec 32) : Device :=
  if m.displayStartAvailable start then
    { m with displayStartLatch := start, displayStartPending := true }
  else m

def advanceFrames (frames : ℕ) : Device :=
  if 0 < frames ∧ m.displayStartPending = true then
    let moved := { m with
      display := { m.display with start := m.displayStartLatch.toNat }
      displayStartPending := false }
    if m.display.start ≠ m.displayStartLatch.toNat then moved.markFullDamage else moved
  else m

def writeVramU8 (value : UInt8) : Device :=
  if offset < m.vram.len ∧ m.vram.byte offset ≠ value then
    noteVramWrite { m with vram := { m.vram with byte := put m.vram.byte offset [value] } } offset 1
  else m

def writeDirect (bytes : List UInt8) : Device :=
  if offset + bytes.length ≤ m.vram.len then
    let noted := m.noteVramWrite offset bytes.length
    { noted with vram := { noted.vram with byte := put noted.vram.byte offset bytes } }
  else m

def writeBulk (contents : ℕ → UInt8) : Device :=
  let noted := m.markFullDamage
  { noted with vram := { noted.vram with byte := contents } }

def armBusyNs (ns : ℕ) : Device := { m with busyNs := ns, busyStamp := (m.busyStamp + 1) % 2 ^ 64 }

def noteBlitRect (base pitch y height : ℕ) : Device :=
  if height = 0 then m
  else if pitch = 0 then m.markFullDamage
  else m.noteVramWrite (saturatingAdd64 base (saturatingMul64 y pitch)) (saturatingMul64 height pitch)

def buildClip : Clip where
  enabled := (m.blitReg regFlags).getLsbD 1
  x0 := low16 (m.blitReg regClipTl)
  y0 := high16 (m.blitReg regClipTl)
  x1 := low16 (m.blitReg regClipBr)
  y1 := high16 (m.blitReg regClipBr)

def blitSetupNs : ℕ := 100
def fillNsPerPixel : ℕ := 5
def copyNsPerPixel : ℕ := 10
def expandNsPerPixel : ℕ := 5
def lineNsPerPixel : ℕ := 10
def patternNsPerPixel : ℕ := 5

def finishBlit (drawn : FrameStore × ℕ) (base pitch y height nsPerPixel : ℕ) : Device :=
  (noteBlitRect { m with vram := drawn.1 } base pitch y height).armBusyNs
    (blitSetupNs + drawn.2 * nsPerPixel)

def fillParams : FillParams where
  dstBase := (m.blitReg regDstBase).toNat
  dstPitch := (m.blitReg regDstPitch).toNat
  depth := (m.blitReg regDepth).toNat
  dstX := low16 (m.blitReg regDstXy)
  dstY := high16 (m.blitReg regDstXy)
  width := low16 (m.blitReg regDim)
  height := high16 (m.blitReg regDim)
  fgColor := m.blitReg regFgColor
  rop := lowByte (m.blitReg regRop)
  clip := m.buildClip

def runFill : Device :=
  let p := m.fillParams
  m.finishBlit (fill m.vram p) p.dstBase p.dstPitch p.dstY p.height fillNsPerPixel

def copyParams : CopyParams where
  dstBase := (m.blitReg regDstBase).toNat
  dstPitch := (m.blitReg regDstPitch).toNat
  srcBase := (m.blitReg regSrcBase).toNat
  srcPitch := (m.blitReg regSrcPitch).toNat
  depth := (m.blitReg regDepth).toNat
  dstX := low16 (m.blitReg regDstXy)
  dstY := high16 (m.blitReg regDstXy)
  srcX := low16 (m.blitReg regSrcXy)
  srcY := high16 (m.blitReg regSrcXy)
  width := low16 (m.blitReg regDim)
  height := high16 (m.blitReg regDim)
  fgColor := m.blitReg regFgColor
  rop := lowByte (m.blitReg regRop)
  colorkey := m.blitReg regColorkey
  colorkeyEn := (m.blitReg regFlags).getLsbD 0
  clip := m.buildClip

def runCopy : Device :=
  let p := m.copyParams
  m.finishBlit (copy m.vram p) p.dstBase p.dstPitch p.dstY p.height copyNsPerPixel

def expandParams : ExpandParams where
  dstBase := (m.blitReg regDstBase).toNat
  dstPitch := (m.blitReg regDstPitch).toNat
  depth := (m.blitReg regDepth).toNat
  dstX := low16 (m.blitReg regDstXy)
  dstY := high16 (m.blitReg regDstXy)
  width := low16 (m.blitReg regDim)
  height := high16 (m.blitReg regDim)
  fgColor := m.blitReg regFgColor
  bgColor := m.blitReg regBgColor
  transparent := (m.blitReg regFlags).getLsbD 2
  rop := lowByte (m.blitReg regRop)
  clip := m.buildClip

def expandMemParams : ExpandMemParams where
  common := m.expandParams
  srcBase := (m.blitReg regSrcBase).toNat
  srcPitch := (m.blitReg regSrcPitch).toNat
  srcX := low16 (m.blitReg regSrcXy)
  srcY := high16 (m.blitReg regSrcXy)

def runExpandMem : Device :=
  let p := m.expandMemParams
  m.finishBlit (colorExpandMem m.vram p) p.common.dstBase p.common.dstPitch p.common.dstY
    p.common.height expandNsPerPixel

def lineParams : LineParams where
  dstBase := (m.blitReg regDstBase).toNat
  dstPitch := (m.blitReg regDstPitch).toNat
  depth := (m.blitReg regDepth).toNat
  x0 := low16 (m.blitReg regLineStart)
  y0 := high16 (m.blitReg regLineStart)
  x1 := low16 (m.blitReg regLineEnd)
  y1 := high16 (m.blitReg regLineEnd)
  fgColor := m.blitReg regFgColor
  rop := lowByte (m.blitReg regRop)
  clip := m.buildClip

def runLine : Device :=
  let p := m.lineParams
  let firstY := min p.y0 p.y1
  let rows := max p.y0 p.y1 - firstY + 1
  m.finishBlit (line m.vram p) p.dstBase p.dstPitch firstY rows lineNsPerPixel

def patternParams : PatternParams where
  dstBase := (m.blitReg regDstBase).toNat
  dstPitch := (m.blitReg regDstPitch).toNat
  patBase := (m.blitReg regPatBase).toNat
  depth := (m.blitReg regDepth).toNat
  dstX := low16 (m.blitReg regDstXy)
  dstY := high16 (m.blitReg regDstXy)
  width := low16 (m.blitReg regDim)
  height := high16 (m.blitReg regDim)
  rop := lowByte (m.blitReg regRop)
  colorkey := m.blitReg regColorkey
  colorkeyEn := (m.blitReg regFlags).getLsbD 0
  clip := m.buildClip

def runPattern : Device :=
  let p := m.patternParams
  m.finishBlit (pattern m.vram p) p.dstBase p.dstPitch p.dstY p.height patternNsPerPixel

def armExpandData : Device :=
  let p := m.expandParams
  let wordsPerRow := (p.width + 31) / 32
  let totalWords := wordsPerRow * p.height
  if validDepth p.depth ∧ totalWords ≠ 0 then
    { m with expand := some ⟨p, wordsPerRow, totalWords, 0, 0⟩ }
  else m

def feedStream (state : ExpandState) (word : BitVec 32) : Device :=
  let p := state.params
  let drawn := expandWord m.vram p state.wordsPerRow state.wordsReceived word
  let row := state.wordsReceived / state.wordsPerRow
  let noted := noteBlitRect { m with vram := drawn.1 } p.dstBase p.dstPitch
    (saturatingAdd32 p.dstY row) 1
  let state := { state with
    wordsReceived := state.wordsReceived + 1, written := state.written + drawn.2 }
  if state.totalWords ≤ state.wordsReceived then
    { noted.armBusyNs (blitSetupNs + state.written * expandNsPerPixel) with expand := none }
  else { noted with expand := some state }

def feedMonoWord (word : BitVec 32) : Device :=
  match m.expand with
  | none => m
  | some state => m.feedStream state word

def dispatch (code : ℕ) : Device :=
  match code with
  | 0x01 => m.runFill
  | 0x02 => m.runCopy
  | 0x03 => m.armExpandData
  | 0x04 => m.runExpandMem
  | 0x05 => m.runLine
  | 0x06 => m.runPattern
  | _ => m

def runCommand : Device :=
  { ({ m with expand := none } : Device).dispatch (m.command &&& 0xff#32).toNat with command := 0 }

def writeControl (byte : ℕ) (value : UInt8) : Device :=
  let next := withByte m.control byte value
  let written :=
    if next.getLsbD 0 then
      { { m with control := next }.armBusyNs 0 with
        busyCreditNs := 0, expand := none, control := next &&& ~~~(1#32) }
    else { m with control := next }
  if m.control ≠ written.control ∧ m.overlayEnabled = true then written.markFullDamage
  else written

def writeMmioU8 (value : UInt8) : Device :=
  let reg := offset / 4 * 4
  let byte := offset % 4
  if reg = regCommand then
    let latched := { m with command := withByte m.command byte value }
    if byte = 3 then latched.runCommand else latched
  else if reg = regMonoData then
    let latched := { m with monoData := withByte m.monoData byte value }
    if byte = 3 then latched.feedMonoWord latched.monoData else latched
  else if reg = regControl then m.writeControl byte value
  else if blitBase ≤ reg ∧ reg < blitBase + blitRegs * 4 then
    let index := (reg - blitBase) / 4
    { m with blit := m.blit.set index (withByte (m.blit index) byte value) }
  else if cursorBase ≤ reg ∧ reg < cursorBase + cursorRegs * 4 then
    let index := (reg - cursorBase) / 4
    let next := withByte (m.cursor index) byte value
    if m.cursor index ≠ next then markFullDamage { m with cursor := m.cursor.set index next } else m
  else if ovlBase ≤ reg ∧ reg < ovlBase + ovlRegs * 4 then
    let index := (reg - ovlBase) / 4
    let next := withByte (m.overlay index) byte value
    if m.overlay index ≠ next then markFullDamage { m with overlay := m.overlay.set index next }
    else m
  else if reg = regDispStart then
    { m with displayStartLatch := withByte m.displayStartLatch byte value, displayStartPending := true }
  else m

def advanceBusy (ns : ℕ) : Device :=
  let credit := min m.busyCreditNs ns
  { m with busyCreditNs := m.busyCreditNs - credit, busyNs := m.busyNs - (ns - credit) }

def creditBusyNs (elapsedNs : ℕ) : Device := { m with busyCreditNs := elapsedNs }

end Device

inductive Event where
  | mmio (offset : ℕ) (value : UInt8)
  | vramByte (offset : ℕ) (value : UInt8)
  | direct (offset : ℕ) (bytes : List UInt8)
  | bulk (contents : ℕ → UInt8)
  | setMode (number : ℕ)
  | displayStart (start : BitVec 32)
  | frames (count : ℕ)
  | busy (ns : ℕ)
  | credit (elapsedNs : ℕ)

variable (m : Device)

def step : Event → Device
  | .mmio offset value => m.writeMmioU8 offset value
  | .vramByte offset value => m.writeVramU8 offset value
  | .direct offset bytes => m.writeDirect offset bytes
  | .bulk contents => m.writeBulk contents
  | .setMode number => m.setMode number
  | .displayStart start => m.programDisplayStart start
  | .frames count => m.advanceFrames count
  | .busy ns => m.advanceBusy ns
  | .credit elapsedNs => m.creditBusyNs elapsedNs

def Remarked (m m' : Device) : Prop := ∃ generation rows,
  (m.contentGeneration < 2 ^ 64 → generation < 2 ^ 64) ∧
    m' = { m with contentGeneration := generation, rowGenerations := rows }

theorem Remarked.refl : Remarked m m :=
  ⟨m.contentGeneration, m.rowGenerations, fun h => h, rfl⟩

theorem markFullDamage_remarked : Remarked m m.markFullDamage := by
  unfold Device.markFullDamage
  dsimp only
  split_ifs
  · exact ⟨_, _, fun _ => Nat.mod_lt _ (by decide), rfl⟩
  · exact ⟨_, _, fun h => h, rfl⟩

theorem markRows_remarked (first last : ℕ) : Remarked m (m.markRows first last) := by
  unfold Device.markRows
  dsimp only
  split_ifs
  · exact Remarked.refl m
  · exact ⟨_, _, fun _ => Nat.mod_lt _ (by decide), rfl⟩

theorem noteVramWrite_remarked (offset bytes : ℕ) :
    Remarked m (m.noteVramWrite offset bytes) := by
  unfold Device.noteVramWrite
  cases checkedAdd64 offset bytes with
  | none => exact Remarked.refl m
  | some writeEnd =>
    dsimp only
    split_ifs
    · exact Remarked.refl m
    · exact markFullDamage_remarked m
    · exact markFullDamage_remarked m
    · exact Remarked.refl m
    · exact Remarked.refl m
    · exact markRows_remarked m _ _

theorem noteBlitRect_remarked (base pitch y height : ℕ) :
    Remarked m (m.noteBlitRect base pitch y height) := by
  unfold Device.noteBlitRect
  split_ifs
  · exact Remarked.refl m
  · exact markFullDamage_remarked m
  · exact noteVramWrite_remarked m _ _

end IzarraVM.Margo
