import IzarraVM.MargoExtents

/-! The plain copy command, exact when no pixel is drawn over the source of a later one. -/
namespace IzarraVM.Margo

open Moves

theorem rasterOrder_length (height width : ℕ) :
    (rasterOrder height width).length = height * width := by
  induction height with
  | zero => exact (Nat.zero_mul width).symm
  | succ height ih =>
    unfold rasterOrder at *
    rw [List.range_succ, List.flatMap_append, List.length_append, ih, Nat.succ_mul]
    simp

/-- Row by row, and by columns in a row. -/
theorem rasterOrder_pairwise (height width : ℕ) : (rasterOrder height width).Pairwise fun a b =>
    a.1 < b.1 ∨ (a.1 = b.1 ∧ a.2 < b.2) := by
  unfold rasterOrder
  rw [List.pairwise_flatMap]
  constructor
  · intro row _
    rw [List.pairwise_map]
    exact List.pairwise_lt_range.imp fun h => Or.inr ⟨rfl, h⟩
  · refine List.pairwise_lt_range.imp fun h => ?_
    intro a ha b hb
    obtain ⟨col, -, rfl⟩ := List.mem_map.mp ha
    obtain ⟨col', -, rfl⟩ := List.mem_map.mp hb
    exact Or.inl h

section Sweep

variable {plot : FrameStore → ℕ → ℕ → Option FrameStore}

/-- Where the store has as many bytes as there are pixels, every pixel is considered. -/
theorem foldl_consider (hlen : ∀ v row col v', plot v row col = some v' → v'.len = v.len)
    (pixels : List (ℕ × ℕ)) : ∀ s : Sweep, s.considered + pixels.length ≤ s.vram.len →
    (pixels.foldl (consider plot) s).vram =
      pixels.foldl (fun v pixel => (plot v pixel.1 pixel.2).getD v) s.vram := by
  induction pixels with
  | nil => exact fun _ _ => rfl
  | cons pixel rest ih =>
    intro s hfit
    rw [List.length_cons] at hfit
    rw [List.foldl_cons, List.foldl_cons]
    unfold consider
    rw [if_neg (by omega)]
    cases hplot : plot s.vram pixel.1 pixel.2 with
    | none => exact ih _ (by dsimp only; omega)
    | some vram =>
      have hkept := hlen _ _ _ _ hplot
      exact ih _ (by dsimp only; omega)

end Sweep

theorem writeRop_len (vram : FrameStore) (off depth : ℕ) (rop : UInt8) (p s : BitVec 32) :
    (writeRop vram off depth rop p s).len = vram.len := rfl

theorem rop3_copy (p s d : BitVec 32) : rop3 0xcc p s d = s := by
  have hcode : rop3 0xcc p s d = 0 ||| 0 ||| (~~~p &&& s &&& ~~~d) ||| (~~~p &&& s &&& d) ||| 0 |||
      0 ||| (p &&& s &&& ~~~d) ||| (p &&& s &&& d) := rfl
  rw [hcode]
  apply BitVec.eq_of_getLsbD_eq
  intro i hi
  have hzero : (0 : BitVec 32).getLsbD i = false := BitVec.getLsbD_zero
  simp only [BitVec.getLsbD_or, BitVec.getLsbD_and, BitVec.getLsbD_not, hzero, decide_eq_true hi]
  cases p.getLsbD i <;> cases s.getLsbD i <;> cases d.getLsbD i <;> rfl

theorem take_leBytes {depth k : ℕ} (h : depth ≤ k) (x : ℕ) :
    (leBytes k x).take depth = leBytes depth x := by
  unfold leBytes
  rw [← List.map_take, List.take_range, Nat.min_eq_left h]

/-- The bytes of a pixel survive the round trip through a word. -/
theorem take_toLeBytes {bytes : List UInt8} (h : bytes.length ≤ 4) :
    (toLeBytes (fromLeBytes bytes)).take bytes.length = bytes := by
  have hlt : leNat bytes < 256 ^ bytes.length := leNat_lt bytes
  have hpow : 256 ^ bytes.length ≤ 256 ^ 4 := Nat.pow_le_pow_right (by decide) h
  have hmod : leNat bytes % 2 ^ 32 = leNat bytes := Nat.mod_eq_of_lt (by omega)
  unfold toLeBytes fromLeBytes
  rw [take_leBytes h, BitVec.toNat_ofNat, hmod, leBytes_leNat]

theorem writeRop_copy (vram : FrameStore) {off depth : ℕ} (p : BitVec 32) {bytes : List UInt8}
    (hlength : bytes.length = depth) (hdepth : depth ≤ 4) :
    writeRop vram off depth 0xcc p (fromLeBytes bytes) =
      { vram with byte := put vram.byte off bytes } := by
  unfold writeRop
  dsimp only
  rw [rop3_copy, ← hlength, take_toLeBytes (by omega)]

namespace CopyParams

variable (p : CopyParams)

def Contains (pixel : ℕ × ℕ) : Prop := pixel.1 < p.height ∧ pixel.2 < p.width

def Drawn (len : ℕ) (pixel : ℕ × ℕ) : Prop :=
  validDepth p.depth ∧ p.clip.allows (p.dstX + pixel.2) (p.dstY + pixel.1) = true ∧
    saturatingAdd64 (p.srcOff pixel.1 pixel.2) p.depth ≤ len ∧
    saturatingAdd64 (p.dstOff pixel.1 pixel.2) p.depth ≤ len

instance (len : ℕ) (pixel : ℕ × ℕ) : Decidable (p.Drawn len pixel) :=
  inferInstanceAs (Decidable (_ ∧ _))

def Before (a b : ℕ × ℕ) : Prop :=
  (if p.srcY < p.dstY then b.1 < a.1 else a.1 < b.1) ∨
    (a.1 = b.1 ∧ if p.srcX < p.dstX then b.2 < a.2 else a.2 < b.2)

def DistinctPixels : Prop := ∀ a b, p.Contains a → p.Contains b → a ≠ b →
  Apart p.depth (p.dstOff a.1 a.2) (p.dstOff b.1 b.2)

instance : Decidable p.DistinctPixels :=
  decidable_of_iff (∀ a ∈ rasterOrder p.height p.width, ∀ b ∈ rasterOrder p.height p.width, a ≠ b →
      Apart p.depth (p.dstOff a.1 a.2) (p.dstOff b.1 b.2))
    ⟨fun h a b ha hb => h a (mem_rasterOrder.mpr ha) b (mem_rasterOrder.mpr hb),
      fun h a ha b hb => h a b (mem_rasterOrder.mp ha) (mem_rasterOrder.mp hb)⟩

def SourceIntact (len : ℕ) : Prop := ∀ a b, p.Contains a → p.Contains b → p.Drawn len a →
  p.Drawn len b → p.Before a b → p.srcOff a.1 a.2 = p.dstOff a.1 a.2 ∨
    Apart p.depth (p.dstOff a.1 a.2) (p.srcOff b.1 b.2)

instance (a b : ℕ × ℕ) : Decidable (p.Before a b) := inferInstanceAs (Decidable (_ ∨ _))

instance (len : ℕ) : Decidable (p.SourceIntact len) :=
  decidable_of_iff (∀ a ∈ rasterOrder p.height p.width, ∀ b ∈ rasterOrder p.height p.width,
      p.Drawn len a → p.Drawn len b → p.Before a b → p.srcOff a.1 a.2 = p.dstOff a.1 a.2 ∨
        Apart p.depth (p.dstOff a.1 a.2) (p.srcOff b.1 b.2))
    ⟨fun h a b ha hb => h a (mem_rasterOrder.mpr ha) b (mem_rasterOrder.mpr hb),
      fun h a ha b hb => h a b (mem_rasterOrder.mp ha) (mem_rasterOrder.mp hb)⟩

structure Exact (len : ℕ) (old new : ℕ → UInt8) : Prop where
  copied : ∀ pixel, p.Contains pixel → p.Drawn len pixel →
    p.keyed (cells old p.depth (p.srcOff pixel.1 pixel.2)) = false →
    cells new p.depth (p.dstOff pixel.1 pixel.2) = cells old p.depth (p.srcOff pixel.1 pixel.2)
  kept : ∀ a, (∀ pixel, p.Contains pixel → p.Drawn len pixel →
      p.keyed (cells old p.depth (p.srcOff pixel.1 pixel.2)) = false →
      ¬ Inside p.depth (p.dstOff pixel.1 pixel.2) a) → new a = old a

def toMove (pixel : ℕ × ℕ) : Move := ⟨p.srcOff pixel.1 pixel.2, p.dstOff pixel.1 pixel.2⟩

def moves (len : ℕ) : List Move := (p.order.filter fun pixel => p.Drawn len pixel).map p.toMove

variable {p}

theorem mem_order {pixel : ℕ × ℕ} : pixel ∈ p.order ↔ p.Contains pixel := by
  unfold order
  rw [List.mem_map]
  constructor
  · rintro ⟨⟨row, col⟩, hmem, rfl⟩
    obtain ⟨hrow, hcol⟩ := mem_rasterOrder.mp hmem
    unfold Contains
    dsimp only at *
    constructor
    · split_ifs <;> omega
    · split_ifs <;> omega
  · rintro ⟨hrow, hcol⟩
    -- the traversal's index of a row or column is its own mirror image
    refine ⟨(if p.srcY < p.dstY then p.height - 1 - pixel.1 else pixel.1,
      if p.srcX < p.dstX then p.width - 1 - pixel.2 else pixel.2), mem_rasterOrder.mpr ?_, ?_⟩
    · dsimp only
      constructor
      · split_ifs <;> omega
      · split_ifs <;> omega
    · apply Prod.ext
      · dsimp only
        split_ifs <;> omega
      · dsimp only
        split_ifs <;> omega

theorem order_pairwise (p : CopyParams) : p.order.Pairwise p.Before := by
  unfold order
  rw [List.pairwise_map]
  refine (rasterOrder_pairwise p.height p.width).imp_of_mem fun {a b} ha hb h => ?_
  obtain ⟨ha₁, ha₂⟩ := mem_rasterOrder.mp ha
  obtain ⟨hb₁, hb₂⟩ := mem_rasterOrder.mp hb
  unfold Before
  dsimp only
  rcases h with hrow | ⟨hrow, hcol⟩
  · left
    split_ifs <;> omega
  · right
    rw [hrow]
    refine ⟨rfl, ?_⟩
    split_ifs <;> omega

theorem before_asymm {a b : ℕ × ℕ} (h : p.Before a b) : ¬ p.Before b a := by
  unfold Before at *
  split_ifs at * <;> omega

/-- A fact about every two pixels in the order of the traversal. -/
theorem pairwise_order_iff {q : ℕ × ℕ → Bool} {R : ℕ × ℕ → ℕ × ℕ → Prop} :
    (p.order.filter q).Pairwise R ↔
      ∀ a b, p.Contains a → p.Contains b → q a → q b → p.Before a b → R a b := by
  have hbefore := (order_pairwise p).filter q
  have hmem : ∀ {a}, a ∈ p.order.filter q ↔ p.Contains a ∧ q a := by
    intro a
    rw [List.mem_filter, mem_order]
  constructor
  · intro hR a b ha hb hqa hqb hab
    -- one of the two comes first in the list, and it cannot be the second
    obtain ⟨i, hi, rfl⟩ := List.getElem_of_mem (hmem.mpr ⟨ha, hqa⟩)
    obtain ⟨j, hj, rfl⟩ := List.getElem_of_mem (hmem.mpr ⟨hb, hqb⟩)
    rcases Nat.lt_trichotomy i j with hlt | heq | hgt
    · exact List.pairwise_iff_getElem.mp hR i j hi hj hlt
    · subst heq
      exact absurd hab (before_asymm hab)
    · exact absurd hab (before_asymm (List.pairwise_iff_getElem.mp hbefore j i hj hi hgt))
  · intro h
    refine hbefore.imp_of_mem fun ha hb hab => ?_
    obtain ⟨ha, hqa⟩ := hmem.mp ha
    obtain ⟨hb, hqb⟩ := hmem.mp hb
    exact h _ _ ha hb hqa hqb hab

variable {len : ℕ}

theorem moves_undisturbed_iff :
    (p.moves len).Pairwise (Undisturbed p.depth) ↔ p.SourceIntact len := by
  unfold moves
  rw [List.pairwise_map, pairwise_order_iff]
  simp only [decide_eq_true_eq]
  rfl

theorem DistinctPixels.moves_apart (h : p.DistinctPixels) :
    (p.moves len).Pairwise fun m m' => Apart p.depth m.dst m'.dst := by
  unfold moves
  rw [List.pairwise_map, pairwise_order_iff]
  intro a b ha hb _ _ hab
  refine h a b ha hb fun heq => ?_
  subst heq
  exact before_asymm hab hab

/-- At another depth nothing is drawn. -/
theorem moves_of_invalid (h : ¬ validDepth p.depth) : p.moves len = [] := by
  unfold moves
  rw [List.filter_eq_nil_iff.mpr, List.map_nil]
  intro pixel _
  rw [decide_eq_true_eq]
  exact fun hdrawn => h hdrawn.1

theorem mem_moves {P : Move → Prop} :
    (∀ m ∈ p.moves len, P m) ↔ ∀ pixel, p.Contains pixel → p.Drawn len pixel → P (p.toMove pixel) := by
  unfold moves
  simp only [List.forall_mem_map, List.mem_filter, mem_order, decide_eq_true_eq, and_imp]

theorem exact_iff_copied {old new : ℕ → UInt8} :
    p.Exact len old new ↔ Copied p.depth p.keyed (p.moves len) old new := by
  constructor
  · rintro ⟨hcopied, hkept⟩
    refine ⟨mem_moves.mpr hcopied, fun a ha => hkept a (mem_moves.mp ha)⟩
  · rintro ⟨hcopied, hkept⟩
    refine ⟨mem_moves.mp hcopied, fun a ha => hkept a (mem_moves.mpr ha)⟩

end CopyParams

variable {p : CopyParams}

theorem copyPixel_len (vram : FrameStore) (row col : ℕ) (vram' : FrameStore)
    (h : copyPixel p vram row col = some vram') : vram'.len = vram.len := by
  unfold copyPixel at h
  simp only [Option.ite_none_left_eq_some] at h
  obtain ⟨-, -, -, hvram⟩ := h
  rw [← Option.some.inj hvram]
  exact writeRop_len _ _ _ _ _ _

/-- With plain copying, a pixel is a move. -/
theorem copyPixel_move (hrop : p.rop = 0xcc) (hdepth : validDepth p.depth)
    (vram : FrameStore) (pixel : ℕ × ℕ) : (copyPixel p vram pixel.1 pixel.2).getD vram =
      if p.Drawn vram.len pixel then
        { vram with byte := move p.depth p.keyed vram.byte (p.toMove pixel) }
      else vram := by
  have hle : p.depth ≤ 4 := by
    unfold validDepth at hdepth
    omega
  unfold copyPixel
  dsimp only
  by_cases hdrawn : p.Drawn vram.len pixel
  · obtain ⟨-, hclip, hsrc, hdst⟩ := id hdrawn
    have hallowed : ¬ p.clip.allows (p.dstX + pixel.2) (p.dstY + pixel.1) = false :=
      Bool.not_eq_false _ ▸ hclip
    have hstore : ¬ (vram.len < saturatingAdd64 (p.srcOff pixel.1 pixel.2) p.depth ∨
        vram.len < saturatingAdd64 (p.dstOff pixel.1 pixel.2) p.depth) := by omega
    rw [if_pos hdrawn, if_neg hallowed, if_neg hstore]
    unfold move CopyParams.toMove
    dsimp only
    split_ifs with hkey
    · rfl
    · rw [hrop, writeRop_copy vram p.fgColor (cells_length _ _ _) hle]
      rfl
  · rw [if_neg hdrawn]
    unfold CopyParams.Drawn at hdrawn
    split_ifs with hclip hstore hkey
    · rfl
    · rfl
    · rfl
    · exact absurd ⟨hdepth, Bool.not_eq_false _ ▸ hclip, by omega, by omega⟩ hdrawn

theorem foldl_copyPixel (hrop : p.rop = 0xcc) (hdepth : validDepth p.depth)
    (pixels : List (ℕ × ℕ)) : ∀ vram : FrameStore,
    pixels.foldl (fun v pixel => (copyPixel p v pixel.1 pixel.2).getD v) vram =
      { vram with byte := (run p.depth p.keyed
        ((pixels.filter fun pixel => p.Drawn vram.len pixel).map p.toMove) vram.byte) } := by
  induction pixels with
  | nil => exact fun _ => rfl
  | cons pixel rest ih =>
    intro vram
    rw [List.foldl_cons, ih, copyPixel_move hrop hdepth]
    by_cases hdrawn : p.Drawn vram.len pixel
    · rw [if_pos hdrawn, List.filter_cons, if_pos (decide_eq_true hdrawn)]
      rfl
    · rw [if_neg hdrawn, List.filter_cons, if_neg (by rw [decide_eq_true_eq]; exact hdrawn)]

/-- The blit is the run of its moves, where the store has a byte for each pixel. -/
theorem copy_vram (hrop : p.rop = 0xcc) (vram : FrameStore)
    (hsize : p.height * p.width ≤ vram.len) :
    (copy vram p).1.byte = run p.depth p.keyed (p.moves vram.len) vram.byte := by
  unfold copy
  by_cases hdepth : validDepth p.depth
  · have hfit : p.order.length ≤ vram.len := by
      unfold CopyParams.order
      rw [List.length_map, rasterOrder_length]
      exact hsize
    rw [if_pos hdepth]
    show (p.order.foldl (consider (copyPixel p)) ⟨vram, 0, 0⟩).vram.byte = _
    rw [foldl_consider copyPixel_len p.order ⟨vram, 0, 0⟩ (by dsimp only; omega),
      foldl_copyPixel hrop hdepth]
    rfl
  · rw [if_neg hdepth, CopyParams.moves_of_invalid hdepth]
    rfl

/-- Two bytes of which no color key consists. -/
theorem exists_unkeyed (p : CopyParams) (hdepth : validDepth p.depth) :
    ∃ low high : UInt8, low ≠ high ∧ ∀ block : List UInt8, block.length = p.depth →
      (∀ b ∈ block, b = low ∨ b = high) → p.keyed block = false := by
  have hadd : ∀ k : UInt8, k + 1 ≠ k + 2 ∧ k ≠ k + 1 ∧ k ≠ k + 2 := by
    intro k
    have hk := k.toNat_lt
    have hone : (1 : UInt8).toNat = 1 := rfl
    have htwo : (2 : UInt8).toNat = 2 := rfl
    simp only [Ne, ← UInt8.toNat_inj, UInt8.toNat_add, hone, htwo]
    omega
  obtain ⟨d, hd⟩ : ∃ d, p.depth = d + 1 := ⟨p.depth - 1, by unfold validDepth at hdepth; omega⟩
  -- neither is the first byte of the key
  refine ⟨UInt8.ofNat p.colorkey.toNat + 1, UInt8.ofNat p.colorkey.toNat + 2, (hadd _).1, ?_⟩
  intro block hlength hvalues
  unfold CopyParams.keyed
  rw [Bool.and_eq_false_iff]
  right
  apply beq_eq_false_iff_ne.mpr
  rintro rfl
  have hle : p.depth ≤ 4 := by
    unfold validDepth at hdepth
    omega
  have hfirst : (toLeBytes p.colorkey).take p.depth =
      UInt8.ofNat p.colorkey.toNat :: leBytes d (p.colorkey.toNat / 256) := by
    unfold toLeBytes
    rw [take_leBytes hle, hd, leBytes_succ]
  rw [hfirst] at hvalues
  rcases hvalues _ List.mem_cons_self with hlow | hhigh
  · exact (hadd _).2.1 hlow
  · exact (hadd _).2.2 hhigh

theorem finishBlit_vram (m : Device) (drawn : FrameStore × ℕ) (base pitch y height ns : ℕ) :
    (m.finishBlit drawn base pitch y height ns).vram = drawn.1 := by
  obtain ⟨generation, rows, -, hnoted⟩ :=
    noteBlitRect_remarked { m with vram := drawn.1 } base pitch y height
  unfold Device.finishBlit
  rw [hnoted]
  rfl

theorem runCommand_copy_vram {m : Device} (hcommand : (m.command &&& 0xff#32).toNat = 2) :
    m.runCommand.vram = (copy m.vram m.copyParams).1 := by
  unfold Device.runCommand
  rw [hcommand]
  show ({ m with expand := none } : Device).runCopy.vram = _
  unfold Device.runCopy
  rw [finishBlit_vram]
  rfl

/-- A copy command with the plain-copy operation is exact for every content of the frame store
exactly when it draws no pixel over the source of a later one. -/
theorem copy_command_exact_iff (m : Device) (hcommand : (m.command &&& 0xff#32).toNat = 2)
    (hrop : m.copyParams.rop = 0xcc)
    (hsize : m.copyParams.height * m.copyParams.width ≤ m.vram.len)
    (hdistinct : m.copyParams.DistinctPixels) :
    (∀ bytes : ℕ → UInt8, m.copyParams.Exact m.vram.len bytes
      { m with vram := { m.vram with byte := bytes } }.runCommand.vram.byte) ↔
      m.copyParams.SourceIntact m.vram.len := by
  have hrun : ∀ bytes : ℕ → UInt8, { m with vram := { m.vram with byte := bytes } }.runCommand.vram.byte =
      run m.copyParams.depth m.copyParams.keyed (m.copyParams.moves m.vram.len) bytes := by
    intro bytes
    have hvram := @runCommand_copy_vram { m with vram := { m.vram with byte := bytes } } hcommand
    rw [hvram]
    exact copy_vram hrop { m.vram with byte := bytes } hsize
  simp only [hrun, CopyParams.exact_iff_copied]
  rw [← CopyParams.moves_undisturbed_iff]
  by_cases hdepth : validDepth m.copyParams.depth
  · obtain ⟨low, high, hne, hskip⟩ := exists_unkeyed m.copyParams hdepth
    exact copied_iff hne hskip hdistinct.moves_apart
  · -- no pixel is drawn at another depth
    have hnone : m.copyParams.moves m.vram.len = [] := CopyParams.moves_of_invalid hdepth
    rw [hnone]
    exact iff_of_true (fun _ => run_copied List.Pairwise.nil List.Pairwise.nil _) List.Pairwise.nil

def copyCommand (dstBase srcBase dstXy srcXy : BitVec 32) : Device :=
  { Device.default with
    command := 2
    blit := fun i => [dstBase, 16, srcBase, 16, 1, dstXy, srcXy, 0x00010003, 0, 0, 0xcc].getD i 0 }

/-- Three pixels one to the right, on one surface. -/
theorem right_copy_exact : (copyCommand 0 0 1 0).copyParams.SourceIntact vramSize ∧
    (copyCommand 0 0 1 0).copyParams.Exact vramSize UInt8.ofNat
      { copyCommand 0 0 1 0 with vram := ⟨vramSize, UInt8.ofNat, by decide⟩ }.runCommand.vram.byte := by
  have hintact : (copyCommand 0 0 1 0).copyParams.SourceIntact vramSize := by decide
  exact ⟨hintact, (copy_command_exact_iff (copyCommand 0 0 1 0) (by decide) (by decide) (by decide)
    (by decide)).mpr hintact UInt8.ofNat⟩

/-- The same three pixels, with the one to the right in the base of the destination: the first is
drawn over the source of the second. -/
theorem shifted_base_smears :
    let m := copyCommand 1 0 0 0
    (m.command &&& 0xff#32).toNat = 2 ∧ m.copyParams.rop = 0xcc ∧
      m.copyParams.height * m.copyParams.width ≤ m.vram.len ∧ m.copyParams.DistinctPixels ∧
      ¬ m.copyParams.Exact m.vram.len (fun a => UInt8.ofNat a)
        { m with vram := { m.vram with byte := fun a => UInt8.ofNat a } }.runCommand.vram.byte := by
  refine ⟨by decide, by decide, by decide, by decide, fun hexact => ?_⟩
  have hsecond := hexact.copied (0, 1) ⟨by decide, by decide⟩ (by decide) (by decide)
  exact absurd hsecond (by decide +kernel)

end IzarraVM.Margo
