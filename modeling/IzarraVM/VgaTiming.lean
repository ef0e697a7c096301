import IzarraVM.MachineWords
import IzarraVM.RasterBeam

/-! The CRT controller's timing (`vga/timing.rs`, and the register decode of `vga.rs`). -/
namespace IzarraVM.Vga

structure CrtcTiming where
  htotalChars : ℕ
  charWidth : ℕ
  hdispEnd : ℕ
  vtotal : ℕ
  vdispEnd : ℕ
  vretraceStart : ℕ
  vretraceEnd : ℕ
  deriving DecidableEq

def text03h : CrtcTiming := ⟨100, 9, 720, 449, 400, 412, 414⟩
def text07h : CrtcTiming := ⟨100, 9, 720, 449, 350, 387, 389⟩
def text40x25 : CrtcTiming := ⟨57, 8, 320, 262, 200, 224, 226⟩
def text80x25Cga : CrtcTiming := { text40x25 with htotalChars := 114, hdispEnd := 640 }
def mode0dh : CrtcTiming := ⟨100, 8, 320, 449, 400, 412, 414⟩
def mode0eh : CrtcTiming := ⟨100, 8, 640, 449, 400, 412, 414⟩
def mode10h : CrtcTiming := ⟨100, 8, 640, 449, 350, 387, 389⟩
def mode0fh : CrtcTiming := mode10h
def mode12h : CrtcTiming := ⟨100, 8, 640, 525, 480, 490, 492⟩
def mode11h : CrtcTiming := mode12h
def modeX : CrtcTiming := ⟨100, 8, 320, 449, 400, 412, 414⟩
def mode13h : CrtcTiming := ⟨100, 8, 320, 449, 400, 412, 414⟩
def cga320x200 : CrtcTiming := ⟨57, 8, 320, 262, 200, 224, 226⟩
def cga640x200 : CrtcTiming := { cga320x200 with charWidth := 16, hdispEnd := 640 }
def hgc720x348 : CrtcTiming := ⟨54, 16, 720, 370, 348, 348, 350⟩

def standardTimings : List CrtcTiming :=
  [text03h, text07h, text40x25, text80x25Cga, mode0dh, mode0eh, mode10h, mode0fh, mode12h, mode11h,
    modeX, mode13h, cga320x200, cga640x200, hgc720x348]

def tenBits (low high8 : UInt8) (bit8 : ℕ) (high9 : UInt8) (bit9 : ℕ) : ℕ :=
  low.toNat ||| (high8.toNat >>> bit8 &&& 1) <<< 8 ||| (high9.toNat >>> bit9 &&& 1) <<< 9

structure VerticalRegs where
  r06 : UInt8
  r07 : UInt8
  r10 : UInt8
  r11 : UInt8
  r12 : UInt8

def recomputeVerticalTiming (r : VerticalRegs) (t : CrtcTiming) : CrtcTiming :=
  let vretraceStart := tenBits r.r10 r.r07 2 r.r07 7
  let e := vretraceStart >>> 4 <<< 4 ||| (r.r11.toNat &&& 0x0f)
  { t with
    vtotal := tenBits r.r06 r.r07 0 r.r07 5 + 2
    vdispEnd := tenBits r.r12 r.r07 1 r.r07 6 + 1
    vretraceStart := vretraceStart
    vretraceEnd := if e ≤ vretraceStart then e + 0x10 else e }

def recomputeHorizontalTiming (r00 r01 : UInt8) (eightBit : Bool) (t : CrtcTiming) : CrtcTiming :=
  let dispChars := max (r01.toNat + 1) 1
  let dotsPerPixel := if eightBit then 2 else 1
  { t with
    htotalChars := max (r00.toNat + 5) dispChars
    hdispEnd := max (dispChars * t.charWidth / dotsPerPixel) 1 }

def recomputeCgaHorizontalTiming (r00 r01 : UInt8) (highRes : Bool) (t : CrtcTiming) : CrtcTiming :=
  let displayedChars := max r01.toNat 1
  let charWidth := if highRes then 16 else 8
  { t with
    charWidth := charWidth
    htotalChars := max (r00.toNat + 1) displayedChars
    hdispEnd := displayedChars * charWidth }

structure CgaRegs where
  r04 : UInt8
  r05 : UInt8
  r06 : UInt8
  r07 : UInt8
  r09 : UInt8

def recomputeCgaVerticalTiming (r : CgaRegs) (t : CrtcTiming) : CrtcTiming :=
  let scanlinesPerRow := (r.r09.toNat &&& 0x1f) + 1
  let vtotal := max ((r.r04.toNat + 1) * scanlinesPerRow + r.r05.toNat) 1
  let vretraceStart := min (r.r07.toNat * scanlinesPerRow) (vtotal - 1)
  { t with
    vtotal := vtotal
    vdispEnd := min (r.r06.toNat * scanlinesPerRow) vtotal
    vretraceStart := vretraceStart
    vretraceEnd := min (vretraceStart + 2) vtotal }

inductive CgaWidth where
  | graphics640
  | graphics320
  | text80
  | text40

def setCgaWidth (width : CgaWidth) (t : CrtcTiming) : CrtcTiming :=
  match width with
  | .graphics640 => { t with charWidth := 16, htotalChars := 57, hdispEnd := 640 }
  | .graphics320 => { t with charWidth := 8, htotalChars := 57, hdispEnd := 320 }
  | .text80 => { t with charWidth := 8, htotalChars := 114, hdispEnd := 640 }
  | .text40 => { t with charWidth := 8, htotalChars := 57, hdispEnd := 320 }

inductive Decoded : CrtcTiming → Prop
  | table {t : CrtcTiming} (h : t ∈ standardTimings) : Decoded t
  | halfWidth {t : CrtcTiming} (h : t = text07h ∨ t = text03h) :
      Decoded { t with hdispEnd := t.hdispEnd / 2 }
  | vertical (r : VerticalRegs) {t : CrtcTiming} (h : Decoded t) :
      Decoded (recomputeVerticalTiming r t)
  | horizontal (r00 r01 : UInt8) (eightBit : Bool) {t : CrtcTiming} (h : Decoded t) :
      Decoded (recomputeHorizontalTiming r00 r01 eightBit t)
  | cgaHorizontal (r00 r01 : UInt8) (highRes : Bool) {t : CrtcTiming} (h : Decoded t) :
      Decoded (recomputeCgaHorizontalTiming r00 r01 highRes t)
  | cgaVertical (r : CgaRegs) {t : CrtcTiming} (h : Decoded t) :
      Decoded (recomputeCgaVerticalTiming r t)
  | cgaWidth (width : CgaWidth) {t : CrtcTiming} (h : Decoded t) : Decoded (setCgaWidth width t)

variable (t : CrtcTiming)

def htotalDots : ℕ := t.htotalChars * t.charWidth % 2 ^ 32

def frameDots : ℕ := htotalDots t * t.vtotal

def beamLine (dots : ℕ) : ℕ := Raster.line (htotalDots t) t.vtotal dots

def beamDot (dots : ℕ) : ℕ := Raster.dot (htotalDots t) dots

def beamDisplayEnable (dots : ℕ) : Bool :=
  beamLine t dots < t.vdispEnd && beamDot t dots < t.hdispEnd

def beamVretrace (dots : ℕ) : Bool :=
  let line := beamLine t dots
  t.vretraceStart ≤ line && line < t.vretraceEnd

def status1GeometryBits (beam : ℕ) (displayForcedInactive : Bool) : ℕ :=
  (if displayForcedInactive || !beamDisplayEnable t beam then 0x01 else 0) |||
    (if beamVretrace t beam then 0x08 else 0)

def dotsUntilStatus1BitChange (beam bit : ℕ) (target : Bool)
    (displayForcedInactive : Bool) : Option ℕ :=
  let htotal := htotalDots t
  let frame := frameDots t
  if htotal = 0 ∨ frame = 0 ∨ t.vtotal = 0 then none
  else
    let beam := beam % frame
    if bit = 3 then
      if t.vretraceEnd ≤ t.vretraceStart ∨ t.vtotal < t.vretraceEnd then none
      else if beamVretrace t beam = target then none
      else
        let line := if target then t.vretraceStart else t.vretraceEnd
        (checkedMul64 line htotal).map fun edge =>
          if beam < edge then edge - beam else frame - beam + edge
    else if bit = 0 then
      if displayForcedInactive = true ∨ t.hdispEnd = 0 ∨ htotal < t.hdispEnd ∨ t.vdispEnd = 0 ∨
          t.vtotal < t.vdispEnd then none
      else if (!beamDisplayEnable t beam) = target then none
      else
        let line := beamLine t beam
        let dot := beamDot t beam
        if target then some (t.hdispEnd - dot)
        else if line + 1 < t.vdispEnd then some (htotal - dot)
        else some (frame - beam)
    else none

def dotsUntilVretraceStart (beam : ℕ) : Option ℕ :=
  let frame := frameDots t
  if frame = 0 then none
  else
    let edge := t.vretraceStart * htotalDots t
    if frame ≤ edge then none
    else
      let beam := beam % frame
      some (if beam < edge then edge - beam else frame - beam + edge)

end IzarraVM.Vga
