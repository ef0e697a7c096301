import IzarraVM.MargoDevice

/-! What the display shows (`margo.rs`, `margo/modes.rs`): surface, overlay and cursor. -/
namespace IzarraVM.Margo

open Moves

structure Channel where
  pos : ℕ
  size : ℕ

structure PixelFormat where
  r : Channel
  g : Channel
  b : Channel

def pixelFormat (bpp : ℕ) : Option PixelFormat :=
  match bpp with
  | 15 => some ⟨⟨10, 5⟩, ⟨5, 5⟩, ⟨0, 5⟩⟩
  | 16 => some ⟨⟨11, 5⟩, ⟨5, 6⟩, ⟨0, 5⟩⟩
  | 32 => some ⟨⟨16, 8⟩, ⟨8, 8⟩, ⟨0, 8⟩⟩
  | _ => none

def expandTo8 (value size : ℕ) : ℕ :=
  if 8 ≤ size then value &&& 0xff
  else
    let v := value &&& (1 <<< size - 1)
    v <<< (8 - size) ||| v >>> (2 * size - 8)

def argb (r g b : ℕ) : ℕ := r <<< 16 ||| g <<< 8 ||| b

def decodeArgb (bpp raw : ℕ) (palette : ℕ → ℕ) : ℕ :=
  if bpp = 8 then palette (raw &&& 0xff)
  else
    match pixelFormat bpp with
    | none => 0
    | some fmt => argb (expandTo8 (raw >>> fmt.r.pos) fmt.r.size)
        (expandTo8 (raw >>> fmt.g.pos) fmt.g.size) (expandTo8 (raw >>> fmt.b.pos) fmt.b.size)

def clampChannel (sum : ℤ) : ℕ := (min (max ((sum + 128) / 256) 0) 255).toNat

def yuvToArgb (y u v : UInt8) : ℕ :=
  let c : ℤ := y.toNat - 16
  let d : ℤ := u.toNat - 128
  let e : ℤ := v.toNat - 128
  argb (clampChannel (298 * c + 409 * e)) (clampChannel (298 * c - 100 * d - 208 * e))
    (clampChannel (298 * c + 516 * d))

def quantizeChannel (v bits cell : ℕ) (dither : Bool) : ℕ :=
  let shift := 8 - bits
  let offset := if dither then (cell <<< shift) / 16 else 0
  let code := min (v + offset) 255 >>> shift
  code <<< shift ||| code >>> (2 * bits - 8)

def bayer4x4 : List (List ℕ) :=
  [[0, 8, 2, 10], [12, 4, 14, 6], [3, 11, 1, 9], [15, 7, 13, 5]]

structure Screen where
  vram : FrameStore
  display : Display
  control : BitVec 32
  cursor : Registers
  overlay : Registers

def Device.screen (m : Device) : Screen := ⟨m.vram, m.display, m.control, m.cursor, m.overlay⟩

namespace Screen

variable (s : Screen)

def cursorReg (offset : ℕ) : BitVec 32 := s.cursor ((offset - cursorBase) / 4)

def overlayReg (offset : ℕ) : BitVec 32 := s.overlay ((offset - ovlBase) / 4)

def byteOr0 (off : ℕ) : UInt8 := if off < s.vram.len then s.vram.byte off else 0

def vramByte (off : ℕ) : Option UInt8 := if off < s.vram.len then some (s.vram.byte off) else none

def primaryBytes (x y : ℕ) : List UInt8 :=
  let depth := bytesPerPixel s.display.bpp
  let off := pixelOffset s.display.start s.display.pitch depth x y
  (List.range depth).map fun i => s.byteOr0 (saturatingAdd64 off i)

variable (palette : ℕ → ℕ)

def primaryArgb (x y : ℕ) : ℕ :=
  decodeArgb s.display.bpp (leNat (s.primaryBytes x y)) palette

def primaryKeyed (x y : ℕ) (colorkey : BitVec 32) : Bool :=
  (toLeBytes colorkey).take (bytesPerPixel s.display.bpp) == s.primaryBytes x y

def sampleOverlay (format sx sy : ℕ) : Option (UInt8 × UInt8 × UInt8) :=
  let srcY := (s.overlayReg regOvlSrcY).toNat
  let pitch := (s.overlayReg regOvlSrcPitch).toNat
  if format = 0 then do
    let base := saturatingAdd64 (saturatingAdd64 srcY (saturatingMul64 sy pitch))
      (saturatingMul64 (sx / 2) 4)
    let y ← s.vramByte (saturatingAdd64 base (sx % 2 * 2))
    let u ← s.vramByte (saturatingAdd64 base 1)
    let v ← s.vramByte (saturatingAdd64 base 3)
    return (y, u, v)
  else if format = 1 then do
    let y ← s.vramByte (saturatingAdd64 (saturatingAdd64 srcY (saturatingMul64 sy pitch)) sx)
    let chroma (base : ℕ) := s.vramByte
      (saturatingAdd64 (saturatingAdd64 base (saturatingMul64 (sy / 2) (pitch / 2))) (sx / 2))
    let u ← chroma (s.overlayReg regOvlSrcU).toNat
    let v ← chroma (s.overlayReg regOvlSrcV).toNat
    return (y, u, v)
  else none

def presentOverlayPixel (pixel x y : ℕ) : ℕ :=
  match pixelFormat s.display.bpp with
  | none => pixel
  | some fmt =>
    if 8 ≤ fmt.r.size then pixel
    else
      let dither := s.control.getLsbD 1
      let cell := (bayer4x4.getD (y % 4) []).getD (x % 4) 0
      argb (quantizeChannel (pixel >>> 16 &&& 0xff) fmt.r.size cell dither)
        (quantizeChannel (pixel >>> 8 &&& 0xff) fmt.g.size cell dither)
        (quantizeChannel (pixel &&& 0xff) fmt.b.size cell dither)

def overlayPixel (x y : ℕ) : Option ℕ :=
  let ctrl := s.overlayReg regOvlCtrl
  let dstX := low16 (s.overlayReg regOvlDstXy)
  let dstY := high16 (s.overlayReg regOvlDstXy)
  let dstW := low16 (s.overlayReg regOvlDstDim)
  let dstH := high16 (s.overlayReg regOvlDstDim)
  let srcW := low16 (s.overlayReg regOvlSrcDim)
  let srcH := high16 (s.overlayReg regOvlSrcDim)
  if dstW = 0 ∨ dstH = 0 ∨ srcW = 0 ∨ srcH = 0 then none
  else if x < dstX ∨ dstX + dstW ≤ x ∨ y < dstY ∨ dstY + dstH ≤ y then none
  else if ctrl.getLsbD 3 = true ∧ s.primaryKeyed x y (s.overlayReg regOvlColorkey) = false then none
  else
    match s.sampleOverlay (ctrl >>> 1 &&& 3#32).toNat ((x - dstX) * srcW / dstW)
        ((y - dstY) * srcH / dstH) with
    | none => none
    | some (sampleY, u, v) => some (s.presentOverlayPixel (yuvToArgb sampleY u v) x y)

def compositeOverlay (below x y : ℕ) : ℕ :=
  if (s.overlayReg regOvlCtrl).getLsbD 0 then (s.overlayPixel x y).getD below else below

def asI16 (n : ℕ) : ℤ := if n < 2 ^ 15 then n else n - 2 ^ 16

def cursorBits (cx cy : ℕ) : Option (Bool × Bool) :=
  let addr := (s.cursorReg regCursorAddr).toNat
  let byte := cy * 8 + cx / 8
  let mask : UInt8 := 0x80 >>> UInt8.ofNat (cx % 8)
  do
    let andByte ← s.vramByte (saturatingAdd64 addr byte)
    let xorByte ← s.vramByte (saturatingAdd64 (saturatingAdd64 addr 512) byte)
    return (andByte &&& mask != 0, xorByte &&& mask != 0)

def cursorPixel (below : ℕ) (cx cy : ℕ) : ℕ :=
  match s.cursorBits cx cy with
  | none => below
  | some (false, false) => decodeArgb s.display.bpp (s.cursorReg regCursorBg).toNat palette
  | some (false, true) => decodeArgb s.display.bpp (s.cursorReg regCursorFg).toNat palette
  | some (true, false) => below
  | some (true, true) => (2 ^ 32 - 1 - below) &&& 0x00ffffff

def compositeCursor (below x y : ℕ) : ℕ :=
  if (s.cursorReg regCursorCtrl).getLsbD 0 then
    let cx := (x : ℤ) - asI16 (low16 (s.cursorReg regCursorPos))
    let cy := (y : ℤ) - asI16 (high16 (s.cursorReg regCursorPos))
    if 0 ≤ cx ∧ cx < 64 ∧ 0 ≤ cy ∧ cy < 64 then s.cursorPixel palette below cx.toNat cy.toNat
    else below
  else below

def scanoutPixel (x y : ℕ) : ℕ :=
  s.compositeCursor palette (s.compositeOverlay (s.primaryArgb palette x y) x y) x y

def scanoutRow (y : ℕ) : List ℕ :=
  (List.range s.display.width).map fun x => s.scanoutPixel palette x y

end Screen

structure Display.Bounded (d : Display) : Prop where
  width_le : d.width * bytesPerPixel d.bpp ≤ d.pitch
  pitch_le : d.pitch ≤ 4096
  height_le : d.height ≤ 768
  start_lt : d.start < 2 ^ 32

def Screen.Shown (s : Screen) (y a : ℕ) : Prop :=
  (s.overlayReg regOvlCtrl).getLsbD 0 = true ∨
    (s.display.start + y * s.display.pitch ≤ a ∧ a < s.display.start + (y + 1) * s.display.pitch) ∨
    ((s.cursorReg regCursorCtrl).getLsbD 0 = true ∧
      (s.cursorReg regCursorAddr).toNat ≤ a ∧ a < (s.cursorReg regCursorAddr).toNat + 1024)

structure SameShown (s : Screen) (vram : FrameStore) (y : ℕ) : Prop where
  len : vram.len = s.vram.len
  byte : ∀ a, s.Shown y a → vram.byte a = s.vram.byte a

section Congruence

variable {s : Screen} {vram : FrameStore} {y : ℕ} (h : SameShown s vram y)
include h

theorem SameShown.byteOr0 {a : ℕ} (ha : s.Shown y a) :
    ({ s with vram := vram } : Screen).byteOr0 a = s.byteOr0 a := by
  unfold Screen.byteOr0
  dsimp only
  rw [h.len, h.byte a ha]

theorem SameShown.vramByte {a : ℕ} (ha : s.Shown y a) :
    ({ s with vram := vram } : Screen).vramByte a = s.vramByte a := by
  unfold Screen.vramByte
  dsimp only
  rw [h.len, h.byte a ha]

/-- The bytes of a row's pixels are in the row. -/
theorem SameShown.primaryBytes (hd : s.display.Bounded)
    (hy : y < s.display.height) {x : ℕ} (hx : x < s.display.width) :
    ({ s with vram := vram } : Screen).primaryBytes x y = s.primaryBytes x y := by
  have hrow : y * s.display.pitch ≤ 768 * 4096 :=
    Nat.mul_le_mul (by have := hd.height_le; omega) hd.pitch_le
  have hcol : (x + 1) * bytesPerPixel s.display.bpp ≤ s.display.pitch :=
    Nat.le_trans (Nat.mul_le_mul_right _ hx) hd.width_le
  have hpitch := hd.pitch_le
  have hstart := hd.start_lt
  rw [Nat.succ_mul] at hcol
  have hoff : pixelOffset s.display.start s.display.pitch (bytesPerPixel s.display.bpp) x y =
      s.display.start + y * s.display.pitch + x * bytesPerPixel s.display.bpp := by
    have hmul : saturatingMul64 y s.display.pitch = y * s.display.pitch :=
      saturatingMul64_eq (by omega)
    have hmul' : saturatingMul64 x (bytesPerPixel s.display.bpp) =
        x * bytesPerPixel s.display.bpp := saturatingMul64_eq (by omega)
    have hadd : saturatingAdd64 s.display.start (y * s.display.pitch) =
        s.display.start + y * s.display.pitch := saturatingAdd64_eq (by omega)
    unfold pixelOffset
    rw [hmul, hmul', hadd, saturatingAdd64_eq (by omega)]
  unfold Screen.primaryBytes
  dsimp only
  apply List.map_congr_left
  intro i hi
  have hi' := List.mem_range.mp hi
  apply h.byteOr0
  right
  left
  rw [hoff, saturatingAdd64_eq (by omega), Nat.succ_mul]
  omega

theorem SameShown.primaryArgb (hd : s.display.Bounded)
    (hy : y < s.display.height) {x : ℕ} (hx : x < s.display.width) (palette : ℕ → ℕ) :
    ({ s with vram := vram } : Screen).primaryArgb palette x y = s.primaryArgb palette x y := by
  unfold Screen.primaryArgb
  rw [h.primaryBytes hd hy hx]

theorem SameShown.cursorBits
    (hon : (s.cursorReg regCursorCtrl).getLsbD 0 = true) {cx cy : ℕ} (hcx : cx < 64) (hcy : cy < 64) :
    ({ s with vram := vram } : Screen).cursorBits cx cy = s.cursorBits cx cy := by
  have haddr := (s.cursorReg regCursorAddr).isLt
  have hand : s.Shown y (saturatingAdd64 (s.cursorReg regCursorAddr).toNat (cy * 8 + cx / 8)) := by
    rw [saturatingAdd64_eq (by omega)]
    exact Or.inr (Or.inr ⟨hon, by omega, by omega⟩)
  have hxor : s.Shown y (saturatingAdd64 (saturatingAdd64 (s.cursorReg regCursorAddr).toNat 512)
      (cy * 8 + cx / 8)) := by
    have hplane : saturatingAdd64 (s.cursorReg regCursorAddr).toNat 512 =
        (s.cursorReg regCursorAddr).toNat + 512 := saturatingAdd64_eq (by omega)
    rw [hplane, saturatingAdd64_eq (by omega)]
    exact Or.inr (Or.inr ⟨hon, by omega, by omega⟩)
  have hand' := h.vramByte hand
  have hxor' := h.vramByte hxor
  unfold Screen.cursorBits
  dsimp only
  show (({ s with vram := vram } : Screen).vramByte
    (saturatingAdd64 (s.cursorReg regCursorAddr).toNat (cy * 8 + cx / 8)) >>= _) = _
  rw [hand']
  congr 1
  funext andByte
  show (({ s with vram := vram } : Screen).vramByte (saturatingAdd64
    (saturatingAdd64 (s.cursorReg regCursorAddr).toNat 512) (cy * 8 + cx / 8)) >>= _) = _
  rw [hxor']

theorem SameShown.cursorPixel
    (hon : (s.cursorReg regCursorCtrl).getLsbD 0 = true) {cx cy : ℕ} (hcx : cx < 64) (hcy : cy < 64)
    (palette : ℕ → ℕ) (below : ℕ) :
    ({ s with vram := vram } : Screen).cursorPixel palette below cx cy =
      s.cursorPixel palette below cx cy := by
  unfold Screen.cursorPixel
  rw [h.cursorBits hon hcx hcy]
  rfl

theorem SameShown.compositeCursor (palette : ℕ → ℕ) (below x : ℕ) :
    ({ s with vram := vram } : Screen).compositeCursor palette below x y =
      s.compositeCursor palette below x y := by
  have hreg : ∀ reg, ({ s with vram := vram } : Screen).cursorReg reg = s.cursorReg reg :=
    fun _ => rfl
  unfold Screen.compositeCursor
  dsimp only
  rw [hreg, hreg]
  by_cases hon : (s.cursorReg regCursorCtrl).getLsbD 0 = true
  · rw [if_pos hon, if_pos hon]
    split_ifs with hin
    · exact h.cursorPixel hon (by omega) (by omega) palette below
    · rfl
  · rw [if_neg hon, if_neg hon]

/-- A row is the same in two stores that agree on what it can show. -/
theorem SameShown.scanoutRow (hd : s.display.Bounded)
    (hy : y < s.display.height) (palette : ℕ → ℕ) :
    ({ s with vram := vram } : Screen).scanoutRow palette y = s.scanoutRow palette y := by
  by_cases hoverlay : (s.overlayReg regOvlCtrl).getLsbD 0 = true
  · -- with the overlay on, the stores agree everywhere
    have hvram : vram = s.vram := by
      obtain ⟨len, byte, fits⟩ := vram
      obtain rfl : len = s.vram.len := h.len
      obtain rfl : byte = s.vram.byte := funext fun a => h.byte a (Or.inl hoverlay)
      rfl
    rw [hvram]
  · unfold Screen.scanoutRow
    apply List.map_congr_left
    intro x hx
    unfold Screen.scanoutPixel
    rw [h.primaryArgb hd hy (List.mem_range.mp hx), h.compositeCursor]
    congr 1
    unfold Screen.compositeOverlay
    show (if (s.overlayReg regOvlCtrl).getLsbD 0 then _ else _) = _
    rw [if_neg hoverlay, if_neg hoverlay]

end Congruence

/-- Without an overlay the control register shows in no row. -/
theorem scanoutRow_control {s : Screen} (h : (s.overlayReg regOvlCtrl).getLsbD 0 = false)
    (control : BitVec 32) (palette : ℕ → ℕ) (y : ℕ) :
    ({ s with control := control } : Screen).scanoutRow palette y = s.scanoutRow palette y := by
  have hoff : ∀ below x, ({ s with control := control } : Screen).compositeOverlay below x y =
      s.compositeOverlay below x y := by
    intro below x
    have hreg : ({ s with control := control } : Screen).overlayReg regOvlCtrl =
      s.overlayReg regOvlCtrl := rfl
    unfold Screen.compositeOverlay
    rw [hreg, h, if_neg Bool.false_ne_true, if_neg Bool.false_ne_true]
  unfold Screen.scanoutRow
  apply List.map_congr_left
  intro x _
  unfold Screen.scanoutPixel
  rw [hoff]
  exact rfl

end IzarraVM.Margo
