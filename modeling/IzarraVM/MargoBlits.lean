import IzarraVM.InPlaceMoves
import IzarraVM.LittleEndian
import IzarraVM.MachineWords

/-! The blits of the 2D engine (`margo.rs`), drawn into the frame store pixel by pixel. -/
namespace IzarraVM.Margo

open Moves

structure FrameStore where
  len : ℕ
  byte : ℕ → UInt8
  fits : len < 2 ^ 64

def rop3 (rop : UInt8) (p s d : BitVec 32) : BitVec 32 :=
  (if rop &&& 0x01 ≠ 0 then ~~~p &&& ~~~s &&& ~~~d else 0) |||
  (if rop &&& 0x02 ≠ 0 then ~~~p &&& ~~~s &&& d else 0) |||
  (if rop &&& 0x04 ≠ 0 then ~~~p &&& s &&& ~~~d else 0) |||
  (if rop &&& 0x08 ≠ 0 then ~~~p &&& s &&& d else 0) |||
  (if rop &&& 0x10 ≠ 0 then p &&& ~~~s &&& ~~~d else 0) |||
  (if rop &&& 0x20 ≠ 0 then p &&& ~~~s &&& d else 0) |||
  (if rop &&& 0x40 ≠ 0 then p &&& s &&& ~~~d else 0) |||
  (if rop &&& 0x80 ≠ 0 then p &&& s &&& d else 0)

def fromLeBytes (bytes : List UInt8) : BitVec 32 := BitVec.ofNat 32 (leNat bytes)

def toLeBytes (word : BitVec 32) : List UInt8 := leBytes 4 word.toNat

variable (vram : FrameStore)

def writeRop (off depth : ℕ) (rop : UInt8) (p s : BitVec 32) : FrameStore :=
  let d := fromLeBytes (cells vram.byte depth off)
  { vram with byte := put vram.byte off ((toLeBytes (rop3 rop p s d)).take depth) }

structure Clip where
  enabled : Bool
  x0 : ℕ
  y0 : ℕ
  x1 : ℕ
  y1 : ℕ

def Clip.allows (clip : Clip) (x y : ℕ) : Bool :=
  !clip.enabled || (clip.x0 ≤ x && x < clip.x1 && clip.y0 ≤ y && y < clip.y1)

def pixelOffset (base pitch depth x y : ℕ) : ℕ :=
  saturatingAdd64 (saturatingAdd64 base (saturatingMul64 y pitch)) (saturatingMul64 x depth)

abbrev validDepth (depth : ℕ) : Prop := depth = 1 ∨ depth = 2 ∨ depth = 4

structure Sweep where
  vram : FrameStore
  considered : ℕ
  written : ℕ

def consider (plot : FrameStore → ℕ → ℕ → Option FrameStore) (s : Sweep) (pixel : ℕ × ℕ) : Sweep :=
  if s.vram.len ≤ s.considered then s
  else
    match plot s.vram pixel.1 pixel.2 with
    | none => { s with considered := s.considered + 1 }
    | some vram => { vram := vram, considered := s.considered + 1, written := s.written + 1 }

def rasterOrder (height width : ℕ) : List (ℕ × ℕ) :=
  (List.range height).flatMap fun row => (List.range width).map fun col => (row, col)

def sweep (plot : FrameStore → ℕ → ℕ → Option FrameStore) (pixels : List (ℕ × ℕ))
    (vram : FrameStore) : FrameStore × ℕ :=
  let s := pixels.foldl (consider plot) ⟨vram, 0, 0⟩
  (s.vram, s.written)

structure FillParams where
  dstBase : ℕ
  dstPitch : ℕ
  depth : ℕ
  dstX : ℕ
  dstY : ℕ
  width : ℕ
  height : ℕ
  fgColor : BitVec 32
  rop : UInt8
  clip : Clip

def fillPixel (p : FillParams) (vram : FrameStore) (row col : ℕ) : Option FrameStore :=
  let y := p.dstY + row
  let x := p.dstX + col
  if p.clip.allows x y = false then none
  else
    let offset := pixelOffset p.dstBase p.dstPitch p.depth x y
    if vram.len < saturatingAdd64 offset p.depth then none
    else some (writeRop vram offset p.depth p.rop p.fgColor 0)

def fill (p : FillParams) : FrameStore × ℕ :=
  if validDepth p.depth then sweep (fillPixel p) (rasterOrder p.height p.width) vram
  else (vram, 0)

structure CopyParams where
  dstBase : ℕ
  dstPitch : ℕ
  srcBase : ℕ
  srcPitch : ℕ
  depth : ℕ
  dstX : ℕ
  dstY : ℕ
  srcX : ℕ
  srcY : ℕ
  width : ℕ
  height : ℕ
  fgColor : BitVec 32
  rop : UInt8
  colorkey : BitVec 32
  colorkeyEn : Bool
  clip : Clip

variable (p : CopyParams)

def CopyParams.srcOff (row col : ℕ) : ℕ :=
  pixelOffset p.srcBase p.srcPitch p.depth (p.srcX + col) (p.srcY + row)

def CopyParams.dstOff (row col : ℕ) : ℕ :=
  pixelOffset p.dstBase p.dstPitch p.depth (p.dstX + col) (p.dstY + row)

def CopyParams.keyed (bytes : List UInt8) : Bool :=
  p.colorkeyEn && bytes == (toLeBytes p.colorkey).take p.depth

def copyPixel (vram : FrameStore) (row col : ℕ) : Option FrameStore :=
  if p.clip.allows (p.dstX + col) (p.dstY + row) = false then none
  else
    let srcOff := p.srcOff row col
    let dstOff := p.dstOff row col
    if vram.len < saturatingAdd64 srcOff p.depth ∨ vram.len < saturatingAdd64 dstOff p.depth then none
    else
      let sb := cells vram.byte p.depth srcOff
      if p.keyed sb then none
      else some (writeRop vram dstOff p.depth p.rop p.fgColor (fromLeBytes sb))

def CopyParams.order : List (ℕ × ℕ) :=
  (rasterOrder p.height p.width).map fun pixel =>
    (if p.srcY < p.dstY then p.height - 1 - pixel.1 else pixel.1,
      if p.srcX < p.dstX then p.width - 1 - pixel.2 else pixel.2)

def copy : FrameStore × ℕ :=
  if validDepth p.depth then sweep (copyPixel p) p.order vram else (vram, 0)

structure ExpandParams where
  dstBase : ℕ
  dstPitch : ℕ
  depth : ℕ
  dstX : ℕ
  dstY : ℕ
  width : ℕ
  height : ℕ
  fgColor : BitVec 32
  bgColor : BitVec 32
  transparent : Bool
  rop : UInt8
  clip : Clip

def putExpandPixel (p : ExpandParams) (vram : FrameStore) (x y : ℕ) (set : Bool) :
    Option FrameStore :=
  if set = false ∧ p.transparent = true then none
  else if p.clip.allows x y = false then none
  else
    let s := if set then p.fgColor else p.bgColor
    let off := pixelOffset p.dstBase p.dstPitch p.depth x y
    if vram.len < saturatingAdd64 off p.depth then none
    else some (writeRop vram off p.depth p.rop p.fgColor s)

structure ExpandMemParams where
  common : ExpandParams
  srcBase : ℕ
  srcPitch : ℕ
  srcX : ℕ
  srcY : ℕ

def expandMemPixel (p : ExpandMemParams) (vram : FrameStore) (row col : ℕ) : Option FrameStore :=
  let bit := p.srcX + col
  let srcOff := saturatingAdd64 (saturatingAdd64 p.srcBase
    (saturatingMul64 (p.srcY + row) p.srcPitch)) (bit / 8)
  if vram.len ≤ srcOff then none
  else
    let set := vram.byte srcOff &&& (0x80 >>> UInt8.ofNat (bit % 8)) != 0
    putExpandPixel p.common vram (p.common.dstX + col) (p.common.dstY + row) set

def colorExpandMem (p : ExpandMemParams) : FrameStore × ℕ :=
  if validDepth p.common.depth then
    sweep (expandMemPixel p) (rasterOrder p.common.height p.common.width) vram
  else (vram, 0)

def expandBit (p : ExpandParams) (wordsPerRow received : ℕ) (word : BitVec 32)
    (out : FrameStore × ℕ) (i : ℕ) : FrameStore × ℕ :=
  let col := received % wordsPerRow * 32 + i
  if p.width ≤ col then out
  else
    match putExpandPixel p out.1 (p.dstX + col) (p.dstY + received / wordsPerRow)
        (word.getLsbD (31 - i)) with
    | none => out
    | some vram => (vram, out.2 + 1)

def expandWord (p : ExpandParams) (wordsPerRow received : ℕ)
    (word : BitVec 32) : FrameStore × ℕ :=
  (List.range 32).foldl (expandBit p wordsPerRow received word) (vram, 0)

structure LineParams where
  dstBase : ℕ
  dstPitch : ℕ
  depth : ℕ
  x0 : ℕ
  y0 : ℕ
  x1 : ℕ
  y1 : ℕ
  fgColor : BitVec 32
  rop : UInt8
  clip : Clip

def asU64 (x : ℤ) : ℕ := (x % 2 ^ 64).toNat

def linePixel (p : LineParams) (out : FrameStore × ℕ) (x y : ℤ) : FrameStore × ℕ :=
  if p.clip.allows (asU64 x) (asU64 y) then
    let off := pixelOffset p.dstBase p.dstPitch p.depth (asU64 x) (asU64 y)
    if saturatingAdd64 off p.depth ≤ out.1.len then
      (writeRop out.1 off p.depth p.rop p.fgColor 0, out.2 + 1)
    else out
  else out

structure LinePoint where
  x : ℤ
  y : ℤ
  err : ℤ
  deriving DecidableEq

structure LineCourse where
  dx : ℤ
  dy : ℤ
  sx : ℤ
  sy : ℤ

def LineParams.course (p : LineParams) : LineCourse where
  dx := ((p.x1 : ℤ) - p.x0).natAbs
  dy := -((p.y1 : ℤ) - p.y0).natAbs
  sx := if p.x0 < p.x1 then 1 else -1
  sy := if p.y0 < p.y1 then 1 else -1

def LineCourse.next (c : LineCourse) (s : LinePoint) : LinePoint :=
  let e2 := 2 * s.err
  { x := if c.dy ≤ e2 then s.x + c.sx else s.x
    y := if e2 ≤ c.dx then s.y + c.sy else s.y
    err := s.err + (if c.dy ≤ e2 then c.dy else 0) + if e2 ≤ c.dx then c.dx else 0 }

/-- The loop, with fuel: 16-bit coordinates give at most 65536 points. -/
def lineLoop (p : LineParams) : ℕ → LinePoint → FrameStore × ℕ → FrameStore × ℕ
  | 0, _, out => out
  | fuel + 1, s, out =>
    let out := linePixel p out s.x s.y
    if s.x = p.x1 ∧ s.y = p.y1 then out
    else lineLoop p fuel (p.course.next s) out

def line (p : LineParams) : FrameStore × ℕ :=
  if validDepth p.depth then
    lineLoop p 65536 ⟨p.x0, p.y0, p.course.dx + p.course.dy⟩ (vram, 0)
  else (vram, 0)

structure PatternParams where
  dstBase : ℕ
  dstPitch : ℕ
  patBase : ℕ
  depth : ℕ
  dstX : ℕ
  dstY : ℕ
  width : ℕ
  height : ℕ
  rop : UInt8
  colorkey : BitVec 32
  colorkeyEn : Bool
  clip : Clip

def patternPixel (p : PatternParams) (vram : FrameStore) (row col : ℕ) : Option FrameStore :=
  let y := p.dstY + row
  let x := p.dstX + col
  if p.clip.allows x y = false then none
  else
    let patOff := pixelOffset p.patBase (8 * p.depth) p.depth (x % 8) (y % 8)
    if vram.len < saturatingAdd64 patOff p.depth then none
    else
      let pb := cells vram.byte p.depth patOff
      if p.colorkeyEn && pb == (toLeBytes p.colorkey).take p.depth then none
      else
        let off := pixelOffset p.dstBase p.dstPitch p.depth x y
        if vram.len < saturatingAdd64 off p.depth then none
        else some (writeRop vram off p.depth p.rop (fromLeBytes pb) 0)

def pattern (p : PatternParams) : FrameStore × ℕ :=
  if validDepth p.depth then sweep (patternPixel p) (rasterOrder p.height p.width) vram
  else (vram, 0)

end IzarraVM.Margo
