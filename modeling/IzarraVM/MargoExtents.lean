import IzarraVM.Bresenham
import IzarraVM.MargoDevice

/-! Which bytes of the frame store a blit can change. -/
namespace IzarraVM.Margo

open Moves

structure Within (lo hi : ℕ) (old new : FrameStore) : Prop where
  len : new.len = old.len
  kept : ∀ a, ¬ (lo ≤ a ∧ a < hi) → new.byte a = old.byte a

theorem Within.refl (lo hi : ℕ) (vram : FrameStore) : Within lo hi vram vram := ⟨rfl, fun _ _ => rfl⟩

theorem Within.trans {lo hi : ℕ} {a b c : FrameStore} (h : Within lo hi a b) (h' : Within lo hi b c) :
    Within lo hi a c :=
  ⟨h'.len.trans h.len, fun x hx => (h'.kept x hx).trans (h.kept x hx)⟩

theorem put_within (vram : FrameStore) {lo hi off : ℕ} {bytes : List UInt8} (hlo : lo ≤ off)
    (hhi : off + bytes.length ≤ hi) :
    Within lo hi vram { vram with byte := put vram.byte off bytes } := by
  refine ⟨rfl, fun a ha => put_outside vram.byte ?_⟩
  omega

theorem writeRop_within (vram : FrameStore) {lo hi off depth : ℕ} (rop : UInt8) (p s : BitVec 32)
    (hlo : lo ≤ off) (hhi : off + depth ≤ hi) :
    Within lo hi vram (writeRop vram off depth rop p s) := by
  refine put_within vram hlo ?_
  rw [List.length_take]
  omega

/-- The loops over a rectangle stay in a range that every pixel stays in. -/
theorem sweep_within {plot : FrameStore → ℕ → ℕ → Option FrameStore} {pixels : List (ℕ × ℕ)}
    {lo hi : ℕ} (hplot : ∀ v v' pixel, pixel ∈ pixels → plot v pixel.1 pixel.2 = some v' →
      Within lo hi v v') (vram : FrameStore) : Within lo hi vram (sweep plot pixels vram).1 := by
  have hfold : ∀ (rest : List (ℕ × ℕ)) (s : Sweep), (∀ pixel ∈ rest, pixel ∈ pixels) →
      Within lo hi s.vram (rest.foldl (consider plot) s).vram := by
    intro rest
    induction rest with
    | nil => exact fun s _ => Within.refl lo hi s.vram
    | cons pixel rest ih =>
      intro s hmem
      have hrest := ih (consider plot s pixel) fun q hq => hmem q (List.mem_cons_of_mem pixel hq)
      refine Within.trans ?_ hrest
      unfold consider
      split_ifs
      · exact Within.refl lo hi s.vram
      · cases hdrawn : plot s.vram pixel.1 pixel.2 with
        | none => exact Within.refl lo hi s.vram
        | some v => exact hplot _ _ pixel (hmem pixel List.mem_cons_self) hdrawn
  exact hfold pixels ⟨vram, 0, 0⟩ fun _ h => h

structure Extent where
  base : ℕ
  pitch : ℕ
  depth : ℕ
  x : ℕ
  y : ℕ
  width : ℕ
  height : ℕ
  clip : Clip

namespace Extent

variable (e : Extent)

def lo : ℕ := e.base + e.y * e.pitch

def hi : ℕ := e.base + (e.y + e.height) * e.pitch

def Contains (x y : ℕ) : Prop := e.x ≤ x ∧ x < e.x + e.width ∧ e.y ≤ y ∧ y < e.y + e.height

def InRows : Prop := ∀ x y, e.Contains x y → e.clip.allows x y = true →
  y * e.pitch + (x + 1) * e.depth ≤ (e.y + e.height) * e.pitch

instance : Decidable e.InRows :=
  decidable_of_iff (∀ row < e.height, ∀ col < e.width, e.clip.allows (e.x + col) (e.y + row) = true →
      (e.y + row) * e.pitch + (e.x + col + 1) * e.depth ≤ (e.y + e.height) * e.pitch)
    ⟨fun h x y hin hallowed => by
      obtain ⟨hleft, hright, htop, hbottom⟩ := hin
      obtain ⟨col, rfl⟩ := Nat.exists_eq_add_of_le hleft
      obtain ⟨row, rfl⟩ := Nat.exists_eq_add_of_le htop
      exact h row (by omega) col (by omega) hallowed,
    fun h row hrow col hcol hallowed => h _ _
      ⟨Nat.le_add_right _ _, Nat.add_lt_add_left hcol _, Nat.le_add_right _ _,
        Nat.add_lt_add_left hrow _⟩ hallowed⟩

structure Small : Prop where
  base : e.base < 2 ^ 32
  pitch : e.pitch < 2 ^ 32
  depth : e.depth < 2 ^ 32
  columns : e.x + e.width ≤ 2 ^ 17
  rows : e.y + e.height ≤ 2 ^ 17

variable {e}

theorem contains_add {row col : ℕ} (hrow : row < e.height) (hcol : col < e.width) :
    e.Contains (e.x + col) (e.y + row) :=
  ⟨Nat.le_add_right _ _, Nat.add_lt_add_left hcol _, Nat.le_add_right _ _,
    Nat.add_lt_add_left hrow _⟩

/-- No offset in the rectangle saturates. -/
theorem Small.pixelOffset_eq (h : e.Small) {x y : ℕ} (hin : e.Contains x y) :
    pixelOffset e.base e.pitch e.depth x y = e.base + y * e.pitch + x * e.depth := by
  obtain ⟨-, hx, -, hy⟩ := hin
  have hbase := h.base
  have hrow : y * e.pitch ≤ 2 ^ 17 * 2 ^ 32 :=
    Nat.mul_le_mul (by have := h.rows; omega) (by have := h.pitch; omega)
  have hcol : x * e.depth ≤ 2 ^ 17 * 2 ^ 32 :=
    Nat.mul_le_mul (by have := h.columns; omega) (by have := h.depth; omega)
  have hmul : saturatingMul64 y e.pitch = y * e.pitch := saturatingMul64_eq (by omega)
  have hmul' : saturatingMul64 x e.depth = x * e.depth := saturatingMul64_eq (by omega)
  have hadd : saturatingAdd64 e.base (y * e.pitch) = e.base + y * e.pitch :=
    saturatingAdd64_eq (by omega)
  unfold pixelOffset
  rw [hmul, hmul', hadd, saturatingAdd64_eq (by omega)]

theorem InRows.pixel_within (hin : e.InRows) (h : e.Small) {x y : ℕ} (hpixel : e.Contains x y)
    (hallowed : e.clip.allows x y = true) (vram : FrameStore) (rop : UInt8) (p s : BitVec 32) :
    Within e.lo e.hi vram
      (writeRop vram (pixelOffset e.base e.pitch e.depth x y) e.depth rop p s) := by
  have hend := hin x y hpixel hallowed
  rw [Nat.succ_mul] at hend
  have hrow : e.y * e.pitch ≤ y * e.pitch := Nat.mul_le_mul_right _ hpixel.2.2.1
  rw [h.pixelOffset_eq hpixel]
  apply writeRop_within
  · unfold lo
    omega
  · unfold hi
    omega

end Extent

theorem mem_rasterOrder {height width : ℕ} {pixel : ℕ × ℕ} :
    pixel ∈ rasterOrder height width ↔ pixel.1 < height ∧ pixel.2 < width := by
  obtain ⟨row, col⟩ := pixel
  simp [rasterOrder]

def FillParams.extent (p : FillParams) : Extent :=
  ⟨p.dstBase, p.dstPitch, p.depth, p.dstX, p.dstY, p.width, p.height, p.clip⟩

def CopyParams.extent (p : CopyParams) : Extent :=
  ⟨p.dstBase, p.dstPitch, p.depth, p.dstX, p.dstY, p.width, p.height, p.clip⟩

def ExpandParams.extent (p : ExpandParams) : Extent :=
  ⟨p.dstBase, p.dstPitch, p.depth, p.dstX, p.dstY, p.width, p.height, p.clip⟩

def PatternParams.extent (p : PatternParams) : Extent :=
  ⟨p.dstBase, p.dstPitch, p.depth, p.dstX, p.dstY, p.width, p.height, p.clip⟩

theorem fill_within {p : FillParams} (hin : p.extent.InRows) (h : p.extent.Small)
    (vram : FrameStore) : Within p.extent.lo p.extent.hi vram (fill vram p).1 := by
  unfold fill
  split_ifs
  · refine sweep_within (fun v v' pixel hmem hdrawn => ?_) vram
    obtain ⟨hrow, hcol⟩ := mem_rasterOrder.mp hmem
    unfold fillPixel at hdrawn
    simp only [Option.ite_none_left_eq_some] at hdrawn
    obtain ⟨hallowed, -, hwritten⟩ := hdrawn
    rw [← Option.some.inj hwritten]
    exact hin.pixel_within h (Extent.contains_add hrow hcol) (Bool.not_eq_false _ ▸ hallowed) v _ _ _
  · exact Within.refl _ _ vram

theorem copy_within {p : CopyParams} (hin : p.extent.InRows) (h : p.extent.Small)
    (vram : FrameStore) : Within p.extent.lo p.extent.hi vram (copy vram p).1 := by
  unfold copy
  split_ifs
  · refine sweep_within (fun v v' pixel hmem hdrawn => ?_) vram
    obtain ⟨hrow, hcol⟩ : pixel.1 < p.height ∧ pixel.2 < p.width := by
      obtain ⟨⟨r, c⟩, horder, rfl⟩ := List.mem_map.mp hmem
      obtain ⟨hr, hc⟩ := mem_rasterOrder.mp horder
      dsimp only at *
      constructor
      · split_ifs <;> omega
      · split_ifs <;> omega
    unfold copyPixel at hdrawn
    simp only [Option.ite_none_left_eq_some] at hdrawn
    obtain ⟨hallowed, -, -, hwritten⟩ := hdrawn
    rw [← Option.some.inj hwritten]
    exact hin.pixel_within h (Extent.contains_add hrow hcol) (Bool.not_eq_false _ ▸ hallowed) v _ _ _
  · exact Within.refl _ _ vram

theorem putExpandPixel_within {p : ExpandParams} {e : Extent} (hin : e.InRows) (h : e.Small)
    (hbase : e.base = p.dstBase) (hpitch : e.pitch = p.dstPitch) (hdepth : e.depth = p.depth)
    (hclip : e.clip = p.clip) {x y : ℕ} (hpixel : e.Contains x y) {set : Bool} {v v' : FrameStore}
    (hdrawn : putExpandPixel p v x y set = some v') : Within e.lo e.hi v v' := by
  unfold putExpandPixel at hdrawn
  simp only [Option.ite_none_left_eq_some] at hdrawn
  obtain ⟨-, hallowed, -, hwritten⟩ := hdrawn
  rw [← Option.some.inj hwritten, ← hbase, ← hpitch, ← hdepth]
  rw [← hclip] at hallowed
  exact hin.pixel_within h hpixel (Bool.not_eq_false _ ▸ hallowed) v _ _ _

theorem colorExpandMem_within {p : ExpandMemParams} (hin : p.common.extent.InRows)
    (h : p.common.extent.Small) (vram : FrameStore) :
    Within p.common.extent.lo p.common.extent.hi vram (colorExpandMem vram p).1 := by
  unfold colorExpandMem
  split_ifs
  · refine sweep_within (fun v v' pixel hmem hdrawn => ?_) vram
    obtain ⟨hrow, hcol⟩ := mem_rasterOrder.mp hmem
    unfold expandMemPixel at hdrawn
    simp only [Option.ite_none_left_eq_some] at hdrawn
    exact putExpandPixel_within hin h rfl rfl rfl rfl (Extent.contains_add hrow hcol) hdrawn.2
  · exact Within.refl _ _ vram

theorem pattern_within {p : PatternParams} (hin : p.extent.InRows) (h : p.extent.Small)
    (vram : FrameStore) : Within p.extent.lo p.extent.hi vram (pattern vram p).1 := by
  unfold pattern
  split_ifs
  · refine sweep_within (fun v v' pixel hmem hdrawn => ?_) vram
    obtain ⟨hrow, hcol⟩ := mem_rasterOrder.mp hmem
    unfold patternPixel at hdrawn
    simp only [Option.ite_none_left_eq_some] at hdrawn
    obtain ⟨hallowed, -, -, -, hwritten⟩ := hdrawn
    rw [← Option.some.inj hwritten]
    exact hin.pixel_within h (Extent.contains_add hrow hcol) (Bool.not_eq_false _ ▸ hallowed) v _ _ _
  · exact Within.refl _ _ vram

def ExpandParams.wordExtent (p : ExpandParams) (wordsPerRow received : ℕ) : Extent where
  base := p.dstBase
  pitch := p.dstPitch
  depth := p.depth
  x := p.dstX + received % wordsPerRow * 32
  y := p.dstY + received / wordsPerRow
  width := min 32 (p.width - received % wordsPerRow * 32)
  height := 1
  clip := p.clip

section Word

variable {p : ExpandParams} {wordsPerRow received : ℕ}
  (hin : (p.wordExtent wordsPerRow received).InRows)
  (h : (p.wordExtent wordsPerRow received).Small)
include hin h

theorem expandBit_within (word : BitVec 32) (out : FrameStore × ℕ) {i : ℕ} (hi : i < 32) :
    Within (p.wordExtent wordsPerRow received).lo (p.wordExtent wordsPerRow received).hi out.1
      (expandBit p wordsPerRow received word out i).1 := by
  unfold expandBit
  dsimp only
  split_ifs with hpad
  · exact Within.refl _ _ out.1
  · cases hdrawn : putExpandPixel p out.1 (p.dstX + (received % wordsPerRow * 32 + i))
        (p.dstY + received / wordsPerRow) (word.getLsbD (31 - i)) with
    | none => exact Within.refl _ _ out.1
    | some v =>
      refine putExpandPixel_within hin h rfl rfl rfl rfl ⟨?_, ?_, ?_, ?_⟩ hdrawn
      · unfold ExpandParams.wordExtent
        dsimp only
        omega
      · unfold ExpandParams.wordExtent
        dsimp only
        omega
      · exact Nat.le_refl _
      · exact Nat.lt_succ_self _

theorem expandWord_within (vram : FrameStore) (word : BitVec 32) :
    Within (p.wordExtent wordsPerRow received).lo (p.wordExtent wordsPerRow received).hi vram
      (expandWord vram p wordsPerRow received word).1 := by
  have hfold : ∀ (bits : List ℕ) (out : FrameStore × ℕ), (∀ i ∈ bits, i < 32) →
      Within (p.wordExtent wordsPerRow received).lo (p.wordExtent wordsPerRow received).hi out.1
        (bits.foldl (expandBit p wordsPerRow received word) out).1 := by
    intro bits
    induction bits with
    | nil => exact fun out _ => Within.refl _ _ out.1
    | cons i bits ih =>
      intro out hbits
      have hbit := expandBit_within hin h word out (hbits i List.mem_cons_self)
      exact hbit.trans (ih _ fun k hk => hbits k (List.mem_cons_of_mem i hk))
  exact hfold (List.range 32) (vram, 0) fun i hi => List.mem_range.mp hi

end Word

def LineParams.extent (p : LineParams) : Extent where
  base := p.dstBase
  pitch := p.dstPitch
  depth := p.depth
  x := min p.x0 p.x1
  y := min p.y0 p.y1
  width := max p.x0 p.x1 - min p.x0 p.x1 + 1
  height := max p.y0 p.y1 - min p.y0 p.y1 + 1
  clip := p.clip

def LineParams.At (p : LineParams) (s : LinePoint) : Prop :=
  ∃ i j, Bresenham.Walk p.course.dx (-p.course.dy) i j s.err ∧
    s.x = p.x0 + p.course.sx * i ∧ s.y = p.y0 + p.course.sy * j

namespace LineParams

variable {p : LineParams} {s : LinePoint}

theorem walk_start (p : LineParams) :
    Bresenham.Walk p.course.dx (-p.course.dy) 0 0 (p.course.dx + p.course.dy) := by
  have hdx : 0 ≤ p.course.dx := Int.natCast_nonneg _
  have hdy : 0 ≤ -p.course.dy := by
    rw [LineParams.course, Int.neg_neg]
    exact Int.natCast_nonneg _
  have hstart := Bresenham.Walk.start hdx hdy
  rw [Int.sub_neg] at hstart
  exact hstart

theorem at_start (p : LineParams) : p.At ⟨p.x0, p.y0, p.course.dx + p.course.dy⟩ :=
  ⟨0, 0, walk_start p, by rw [Int.mul_zero, Int.add_zero], by rw [Int.mul_zero, Int.add_zero]⟩

/-- One pass of the loop takes a step of the walk. -/
theorem walk_next {i j : ℤ} (hwalk : Bresenham.Walk p.course.dx (-p.course.dy) i j s.err)
    (hx : s.x = p.x0 + p.course.sx * i) (hy : s.y = p.y0 + p.course.sy * j)
    (hopen : ¬ (s.x = p.x1 ∧ s.y = p.y1)) :
    Bresenham.Walk p.course.dx (-p.course.dy) (if p.course.dy ≤ 2 * s.err then i + 1 else i)
        (if 2 * s.err ≤ p.course.dx then j + 1 else j) (p.course.next s).err ∧
      (p.course.next s).x = p.x0 + p.course.sx * (if p.course.dy ≤ 2 * s.err then i + 1 else i) ∧
      (p.course.next s).y = p.y0 + p.course.sy * (if 2 * s.err ≤ p.course.dx then j + 1 else j) := by
  have hnot : ¬ (i = p.course.dx ∧ j = -p.course.dy) := by
    rintro ⟨rfl, rfl⟩
    -- all columns and rows taken: the second end
    apply hopen
    rw [hx, hy]
    unfold LineParams.course
    dsimp only
    constructor
    · split_ifs <;> omega
    · split_ifs <;> omega
  have hnext := hwalk.next hnot
  rw [Int.neg_neg] at hnext
  refine ⟨hnext, ?_, ?_⟩
  · show (if p.course.dy ≤ 2 * s.err then s.x + p.course.sx else s.x) = _
    rw [hx]
    split_ifs
    · rw [Int.mul_add, Int.mul_one, Int.add_assoc]
    · rfl
  · show (if 2 * s.err ≤ p.course.dx then s.y + p.course.sy else s.y) = _
    rw [hy]
    split_ifs
    · rw [Int.mul_add, Int.mul_one, Int.add_assoc]
    · rfl

theorem At.next (h : p.At s) (hopen : ¬ (s.x = p.x1 ∧ s.y = p.y1)) : p.At (p.course.next s) := by
  obtain ⟨i, j, hwalk, hx, hy⟩ := h
  exact ⟨_, _, walk_next hwalk hx hy hopen⟩

/-- The walk stays in the box. -/
theorem At.bounds (h : p.At s) :
    (min p.x0 p.x1 : ℤ) ≤ s.x ∧ s.x ≤ max p.x0 p.x1 ∧
      (min p.y0 p.y1 : ℤ) ≤ s.y ∧ s.y ≤ max p.y0 p.y1 := by
  obtain ⟨i, j, hwalk, hx, hy⟩ := h
  have hi0 := hwalk.i_nonneg
  have hia := hwalk.i_le
  have hj0 := hwalk.j_nonneg
  have hjb := hwalk.j_le
  rw [hx, hy]
  unfold LineParams.course at *
  dsimp only at *
  refine ⟨?_, ?_, ?_, ?_⟩
  · split_ifs <;> omega
  · split_ifs <;> omega
  · split_ifs <;> omega
  · split_ifs <;> omega

theorem asU64_eq {x : ℤ} (hlo : 0 ≤ x) (hhi : x < 2 ^ 64) : asU64 x = x.toNat := by
  unfold asU64
  rw [Int.emod_eq_of_lt hlo hhi]

variable (hin : p.extent.InRows) (h : p.extent.Small)
include hin h

theorem linePixel_within (hat : p.At s) (out : FrameStore × ℕ) :
    Within p.extent.lo p.extent.hi out.1 (linePixel p out s.x s.y).1 := by
  obtain ⟨hx0, hx1, hy0, hy1⟩ := hat.bounds
  have hcols : min p.x0 p.x1 + (max p.x0 p.x1 - min p.x0 p.x1 + 1) ≤ 2 ^ 17 := h.columns
  have hrows : min p.y0 p.y1 + (max p.y0 p.y1 - min p.y0 p.y1 + 1) ≤ 2 ^ 17 := h.rows
  have hx : asU64 s.x = s.x.toNat := asU64_eq (by omega) (by omega)
  have hy : asU64 s.y = s.y.toNat := asU64_eq (by omega) (by omega)
  unfold linePixel
  dsimp only
  rw [hx, hy]
  split_ifs with hallowed hstore
  · refine hin.pixel_within h ⟨?_, ?_, ?_, ?_⟩ hallowed out.1 _ _ _
    · show min p.x0 p.x1 ≤ s.x.toNat
      omega
    · show s.x.toNat < min p.x0 p.x1 + (max p.x0 p.x1 - min p.x0 p.x1 + 1)
      omega
    · show min p.y0 p.y1 ≤ s.y.toNat
      omega
    · show s.y.toNat < min p.y0 p.y1 + (max p.y0 p.y1 - min p.y0 p.y1 + 1)
      omega
  · exact Within.refl _ _ out.1
  · exact Within.refl _ _ out.1

theorem lineLoop_within (fuel : ℕ) : ∀ {s : LinePoint} (out : FrameStore × ℕ), p.At s →
      Within p.extent.lo p.extent.hi out.1 (lineLoop p fuel s out).1 := by
  induction fuel with
  | zero => exact fun out _ => Within.refl _ _ out.1
  | succ fuel ih =>
    intro s out hat
    have hpixel := linePixel_within hin h hat out
    rw [lineLoop]
    split_ifs with hend
    · exact hpixel
    · exact hpixel.trans (ih _ (hat.next hend))

theorem line_within (vram : FrameStore) : Within p.extent.lo p.extent.hi vram (line vram p).1 := by
  unfold line
  split_ifs
  · exact lineLoop_within hin h 65536 (vram, 0) p.at_start
  · exact Within.refl _ _ vram

end LineParams

end IzarraVM.Margo
