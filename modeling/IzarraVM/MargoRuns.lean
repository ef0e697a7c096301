import IzarraVM.MargoDamage

/-! Runs of the 2D engine: what holds in every state, and the damage law over whole runs. -/
namespace IzarraVM.Margo

open Moves Runs

structure ExpandState.Armed (st : ExpandState) : Prop where
  base : st.params.dstBase < 2 ^ 32
  pitch : st.params.dstPitch < 2 ^ 32
  depth : st.params.depth < 2 ^ 32
  valid : validDepth st.params.depth
  x : st.params.dstX < 2 ^ 16
  y : st.params.dstY < 2 ^ 16
  width : st.params.width < 2 ^ 16
  height : st.params.height < 2 ^ 16
  perRow : st.wordsPerRow = (st.params.width + 31) / 32
  total : st.totalWords = st.wordsPerRow * st.params.height
  more : st.wordsReceived < st.totalWords

structure Sound (m : Device) : Prop where
  display : m.display.Bounded
  generation : m.contentGeneration < 2 ^ 64
  expand : ∀ st, m.expand = some st → st.Armed

theorem Sound.default : Sound Device.default where
  display := ⟨Nat.le_refl 0, Nat.zero_le _, Nat.zero_le _, by decide⟩
  generation := by decide
  expand := nofun

variable {m m' : Device}

theorem Sound.ite {p : Prop} [Decidable p] (h : p → Sound m) (h' : ¬ p → Sound m') :
    Sound (if p then m else m') := iteInduction h h'

theorem vbeMode_bounded {number : ℕ} {mode : VbeMode} (h : vbeMode number = some mode) :
    mode.width * bytesPerPixel mode.bpp ≤ 4096 ∧ mode.height ≤ 768 := by
  have hall : ∀ mode ∈ vbeModes, mode.width * bytesPerPixel mode.bpp ≤ 4096 ∧ mode.height ≤ 768 := by
    decide
  exact hall mode (List.mem_of_find?_eq_some h)

section

variable (h : Sound m)
include h

theorem Sound.remarked (hm : Remarked m m') : Sound m' := by
  obtain ⟨generation, rows, hgen, rfl⟩ := hm
  exact { h with generation := hgen h.generation }

theorem Sound.marked : Sound m.markFullDamage := h.remarked (markFullDamage_remarked m)

theorem Sound.setMode (number : ℕ) : Sound (m.setMode number) := by
  unfold Device.setMode
  cases hmode : vbeMode number with
  | none => exact h
  | some mode =>
    obtain ⟨hpitch, hheight⟩ := vbeMode_bounded hmode
    have hset : Sound { m with
        display := ⟨mode.number, mode.width, mode.height, mode.bpp,
          mode.width * bytesPerPixel mode.bpp, 0⟩
        displayStartLatch := 0
        displayStartPending := false } :=
      { h with display := ⟨Nat.le_refl _, hpitch, hheight, Nat.pow_pos Nat.two_pos⟩ }
    exact hset.marked

theorem Sound.advanceFrames (frames : ℕ) : Sound (m.advanceFrames frames) := by
  have hmoved : Sound { m with
      display := { m.display with start := m.displayStartLatch.toNat }
      displayStartPending := false } :=
    { h with display := { h.display with start_lt := m.displayStartLatch.isLt } }
  unfold Device.advanceFrames
  dsimp only
  split_ifs
  · exact hmoved.marked
  · exact hmoved
  · exact h

theorem Sound.finishBlit (drawn : FrameStore × ℕ) (base pitch y height ns : ℕ) :
    Sound (m.finishBlit drawn base pitch y height ns) := by
  have hdrawn : Sound { m with vram := drawn.1 } := { h with }
  have hnoted := hdrawn.remarked (noteBlitRect_remarked _ base pitch y height)
  exact { hnoted with }

theorem Sound.armExpandData : Sound m.armExpandData := by
  unfold Device.armExpandData
  dsimp only
  split_ifs with harm
  · refine { h with expand := fun st hst => ?_ }
    cases hst
    exact ⟨(m.blitReg regDstBase).isLt, (m.blitReg regDstPitch).isLt, (m.blitReg regDepth).isLt,
      harm.1, low16_lt _, high16_lt _, low16_lt _, high16_lt _, rfl, rfl, Nat.pos_of_ne_zero harm.2⟩
  · exact h

theorem Sound.dispatch (code : ℕ) : Sound (m.dispatch code) := by
  unfold Device.dispatch
  split
  · exact h.finishBlit _ _ _ _ _ _
  · exact h.finishBlit _ _ _ _ _ _
  · exact h.armExpandData
  · exact h.finishBlit _ _ _ _ _ _
  · exact h.finishBlit _ _ _ _ _ _
  · exact h.finishBlit _ _ _ _ _ _
  · exact h

theorem Sound.runCommand : Sound m.runCommand := by
  have hidle : Sound { m with expand := none } := { h with expand := nofun }
  exact { hidle.dispatch _ with }

theorem Sound.feedStream {st : ExpandState} (harmed : st.Armed) (word : BitVec 32) :
    Sound (m.feedStream st word) := by
  have hdrawn : Sound { m with
      vram := (expandWord m.vram st.params st.wordsPerRow st.wordsReceived word).1 } := { h with }
  have hnoted := hdrawn.remarked (noteBlitRect_remarked _ st.params.dstBase st.params.dstPitch
    (saturatingAdd32 st.params.dstY (st.wordsReceived / st.wordsPerRow)) 1)
  unfold Device.feedStream
  dsimp only
  split_ifs with hdone
  · exact { hnoted with expand := nofun }
  · refine { hnoted with expand := fun st' hst' => ?_ }
    cases hst'
    exact { harmed with more := Nat.lt_of_not_le hdone }

theorem Sound.feedMonoWord (word : BitVec 32) : Sound (m.feedMonoWord word) := by
  unfold Device.feedMonoWord
  split
  · exact h
  · exact h.feedStream (h.expand _ ‹_›) word

theorem Sound.writeControl (byte : ℕ) (value : UInt8) : Sound (m.writeControl byte value) := by
  unfold Device.writeControl
  dsimp only
  split_ifs
  · refine Sound.marked ?_
    exact { h with expand := nofun }
  · exact { h with expand := nofun }
  · refine Sound.marked ?_
    exact { h with }
  · exact { h with }

theorem Sound.writeMmioU8 (offset : ℕ) (value : UInt8) : Sound (m.writeMmioU8 offset value) := by
  unfold Device.writeMmioU8
  refine .ite (fun _ => .ite (fun _ => Sound.runCommand ?_) fun _ => { h with }) fun _ => ?_
  · exact { h with }
  refine .ite (fun _ => .ite (fun _ => Sound.feedMonoWord ?_ _) fun _ => { h with }) fun _ => ?_
  · exact { h with }
  refine .ite (fun _ => h.writeControl _ value) fun _ => .ite (fun _ => { h with }) fun _ => ?_
  refine .ite (fun _ => .ite (fun _ => Sound.marked { h with }) fun _ => h) fun _ => ?_
  refine .ite (fun _ => .ite (fun _ => Sound.marked { h with }) fun _ => h) fun _ => ?_
  exact .ite (fun _ => { h with }) fun _ => h

theorem Sound.step (event : Event) : Sound (step m event) := by
  cases event with
  | mmio offset value => exact h.writeMmioU8 offset value
  | vramByte offset value =>
    show Sound (m.writeVramU8 offset value)
    unfold Device.writeVramU8
    split_ifs
    · refine Sound.remarked ?_ (noteVramWrite_remarked _ _ _)
      exact { h with }
    · exact h
  | direct offset bytes =>
    show Sound (m.writeDirect offset bytes)
    unfold Device.writeDirect
    split_ifs
    · have hnoted := h.remarked (noteVramWrite_remarked m offset bytes.length)
      exact { hnoted with }
    · exact h
  | bulk contents =>
    have hmarked := h.marked
    exact { hmarked with }
  | setMode number => exact h.setMode number
  | displayStart start =>
    show Sound (m.programDisplayStart start)
    unfold Device.programDisplayStart
    split_ifs
    · exact { h with }
    · exact h
  | frames count => exact h.advanceFrames count
  | busy ns => exact { h with }
  | credit elapsedNs => exact { h with }

theorem Sound.exec (events : List Event) : Sound (exec Margo.step events m) :=
  List.foldlRecOn events _ h fun _ h event _ => h.step event

end

variable (m)

def Device.rectExtent : Extent where
  base := (m.blitReg regDstBase).toNat
  pitch := (m.blitReg regDstPitch).toNat
  depth := (m.blitReg regDepth).toNat
  x := low16 (m.blitReg regDstXy)
  y := high16 (m.blitReg regDstXy)
  width := low16 (m.blitReg regDim)
  height := high16 (m.blitReg regDim)
  clip := m.buildClip

def Device.commandExtent (code : ℕ) : Option Extent :=
  match code with
  | 0x01 | 0x02 | 0x04 | 0x06 => some m.rectExtent
  | 0x05 => some m.lineParams.extent
  | _ => none

def Device.Reports (e : Extent) : Prop :=
  m.overlayEnabled = true ∨ e.pitch = 0 ∨ ¬ validDepth e.depth ∨ e.InRows

def Contained : Event → Prop
  | .mmio offset value =>
    (offset = regCommand + 3 →
      ∀ e ∈ m.commandExtent (withByte m.command 3 value &&& 0xff#32).toNat, m.Reports e) ∧
    (offset = regMonoData + 3 →
      ∀ st ∈ m.expand, m.Reports (st.params.wordExtent st.wordsPerRow st.wordsReceived))
  | _ => True

instance (m : Device) (e : Extent) : Decidable (m.Reports e) := inferInstanceAs (Decidable (_ ∨ _))

instance (m : Device) : (event : Event) → Decidable (Contained m event)
  | .mmio _ _ => inferInstanceAs (Decidable (_ ∧ _))
  | .vramByte _ _ | .direct _ _ | .bulk _ | .setMode _ | .displayStart _ | .frames _ | .busy _
  | .credit _ => isTrue trivial

variable {palette : ℕ → ℕ} {m}

theorem noteVramWrite_overlay (m' : Device) {offset bytes : ℕ} (hon : m'.overlayEnabled = true)
    (hbytes : bytes ≠ 0) (hfit : offset + bytes < 2 ^ 64) :
    m'.noteVramWrite offset bytes = m'.markFullDamage := by
  unfold Device.noteVramWrite
  rw [checkedAdd64, if_pos hfit]
  dsimp only
  rw [if_neg hbytes, if_pos hon]

/-- A blit that reports what it draws accounts for it. -/
theorem noteBlitRect_tracked (h : Sound m) {e : Extent} (hsmall : e.Small) (hreports : m.Reports e)
    {vram : FrameStore} (hwithin : e.InRows → Within e.lo e.hi m.vram vram)
    (hinvalid : ¬ validDepth e.depth → vram = m.vram) :
    Tracked palette m (({ m with vram := vram } : Device).noteBlitRect e.base e.pitch e.y e.height) := by
  have hrow : e.y * e.pitch ≤ 2 ^ 17 * 2 ^ 32 :=
    Nat.mul_le_mul (by have := hsmall.rows; omega) (by have := hsmall.pitch; omega)
  have harea : e.height * e.pitch ≤ 2 ^ 17 * 2 ^ 32 :=
    Nat.mul_le_mul (by have := hsmall.rows; omega) (by have := hsmall.pitch; omega)
  have hbase := hsmall.base
  have hhi : e.hi = e.lo + e.height * e.pitch := by
    unfold Extent.hi Extent.lo
    rw [Nat.add_mul]
    omega
  have hlo : saturatingAdd64 e.base (saturatingMul64 e.y e.pitch) = e.lo := by
    have hmul : saturatingMul64 e.y e.pitch = e.y * e.pitch := saturatingMul64_eq (by omega)
    rw [hmul]
    exact saturatingAdd64_eq (by omega)
  have hbytes : saturatingMul64 e.height e.pitch = e.height * e.pitch :=
    saturatingMul64_eq (by omega)
  have hfit : e.lo + e.height * e.pitch < 2 ^ 64 := by
    unfold Extent.lo
    omega
  -- where the change is inside the reported rows, the note accounts for it
  have hnoted : Within e.lo e.hi m.vram vram → Tracked palette m
      (({ m with vram := vram } : Device).noteVramWrite e.lo (e.height * e.pitch)) := by
    intro hwithin
    rw [hhi] at hwithin
    exact noteVramWrite_tracked h.display hwithin hfit
  unfold Device.noteBlitRect
  rw [hlo, hbytes]
  split_ifs with hheight hpitch
  · -- an empty rectangle
    have hempty : e.InRows := by
      rintro x y ⟨-, -, hfrom, hto⟩
      omega
    have hnote := hnoted (hwithin hempty)
    rw [hheight, Nat.zero_mul] at hnote
    unfold Device.noteVramWrite at hnote
    rw [checkedAdd64, if_pos (by omega)] at hnote
    exact hnote
  · exact markFullDamage_tracked rfl
  · rcases hreports with hon | hflat | hdepth | hin
    · have hne : e.height * e.pitch ≠ 0 := Nat.mul_ne_zero hheight hpitch
      rw [noteVramWrite_overlay { m with vram := vram } hon hne hfit]
      exact markFullDamage_tracked rfl
    · exact absurd hflat hpitch
    · refine hnoted ?_
      rw [hinvalid hdepth]
      exact Within.refl _ _ _
    · exact hnoted (hwithin hin)

theorem rectExtent_small (m : Device) : m.rectExtent.Small := by
  have hx := low16_lt (m.blitReg regDstXy)
  have hy := high16_lt (m.blitReg regDstXy)
  have hwidth := low16_lt (m.blitReg regDim)
  have hheight := high16_lt (m.blitReg regDim)
  refine ⟨(m.blitReg regDstBase).isLt, (m.blitReg regDstPitch).isLt, (m.blitReg regDepth).isLt, ?_,
    ?_⟩
  · show low16 (m.blitReg regDstXy) + low16 (m.blitReg regDim) ≤ 2 ^ 17
    omega
  · show high16 (m.blitReg regDstXy) + high16 (m.blitReg regDim) ≤ 2 ^ 17
    omega

theorem lineExtent_small (m : Device) : m.lineParams.extent.Small := by
  have hx0 := low16_lt (m.blitReg regLineStart)
  have hy0 := high16_lt (m.blitReg regLineStart)
  have hx1 := low16_lt (m.blitReg regLineEnd)
  have hy1 := high16_lt (m.blitReg regLineEnd)
  refine ⟨(m.blitReg regDstBase).isLt, (m.blitReg regDstPitch).isLt, (m.blitReg regDepth).isLt, ?_,
    ?_⟩
  · unfold LineParams.extent Device.lineParams
    dsimp only
    omega
  · unfold LineParams.extent Device.lineParams
    dsimp only
    omega

theorem dispatch_tracked (h : Sound m) {code : ℕ}
    (hreports : ∀ e, m.commandExtent code = some e → m.Reports e) :
    Tracked palette m (m.dispatch code) := by
  have hrect : ∀ {drawn : FrameStore × ℕ} (ns : ℕ), m.Reports m.rectExtent →
      (m.rectExtent.InRows → Within m.rectExtent.lo m.rectExtent.hi m.vram drawn.1) →
      (¬ validDepth m.rectExtent.depth → drawn.1 = m.vram) →
      Tracked palette m (m.finishBlit drawn m.rectExtent.base m.rectExtent.pitch m.rectExtent.y
        m.rectExtent.height ns) := by
    intro drawn ns hrep hwithin hinvalid
    exact noteBlitRect_tracked h (rectExtent_small m) hrep hwithin hinvalid
  have hsmall := rectExtent_small m
  unfold Device.dispatch
  split
  · refine hrect Device.fillNsPerPixel (hreports _ rfl) (fun hin => ?_) fun hdepth => ?_
    · exact fill_within (p := m.fillParams) hin hsmall m.vram
    · exact congrArg Prod.fst (if_neg hdepth)
  · refine hrect Device.copyNsPerPixel (hreports _ rfl) (fun hin => ?_) fun hdepth => ?_
    · exact copy_within (p := m.copyParams) hin hsmall m.vram
    · exact congrArg Prod.fst (if_neg hdepth)
  · unfold Device.armExpandData
    dsimp only
    split_ifs
    · exact .refl m
    · exact .refl m
  · refine hrect Device.expandNsPerPixel (hreports _ rfl) (fun hin => ?_) fun hdepth => ?_
    · exact colorExpandMem_within (p := m.expandMemParams) hin hsmall m.vram
    · exact congrArg Prod.fst (if_neg hdepth)
  · refine noteBlitRect_tracked h (lineExtent_small m) (hreports _ rfl) (fun hin => ?_)
      fun hdepth => ?_
    · exact LineParams.line_within hin (lineExtent_small m) m.vram
    · exact congrArg Prod.fst (if_neg hdepth)
  · refine hrect Device.patternNsPerPixel (hreports _ rfl) (fun hin => ?_) fun hdepth => ?_
    · exact pattern_within (p := m.patternParams) hin hsmall m.vram
    · exact congrArg Prod.fst (if_neg hdepth)
  · exact .refl m

theorem ExpandState.Armed.wordExtent_small {st : ExpandState} (h : st.Armed) :
    (st.params.wordExtent st.wordsPerRow st.wordsReceived).Small := by
  have hx := h.x
  have hy := h.y
  have hwidth := h.width
  have hheight := h.height
  have hmore := h.more
  rw [h.total] at hmore
  have hrow : st.wordsReceived / st.wordsPerRow < st.params.height := Nat.div_lt_of_lt_mul hmore
  have hperRow : 0 < st.wordsPerRow := Nat.pos_of_mul_pos_right (Nat.lt_of_le_of_lt (Nat.zero_le _) hmore)
  have hcol : st.wordsReceived % st.wordsPerRow < st.wordsPerRow := Nat.mod_lt _ hperRow
  have heq := h.perRow
  refine ⟨h.base, h.pitch, h.depth, ?_, ?_⟩
  · show st.params.dstX + st.wordsReceived % st.wordsPerRow * 32 +
      min 32 (st.params.width - st.wordsReceived % st.wordsPerRow * 32) ≤ 2 ^ 17
    omega
  · show st.params.dstY + st.wordsReceived / st.wordsPerRow + 1 ≤ 2 ^ 17
    omega

theorem feedStream_tracked (h : Sound m) {st : ExpandState} (harmed : st.Armed)
    (hreports : m.Reports (st.params.wordExtent st.wordsPerRow st.wordsReceived))
    (word : BitVec 32) : Tracked palette m (m.feedStream st word) := by
  have hsmall := harmed.wordExtent_small
  have hrows : st.params.dstY + st.wordsReceived / st.wordsPerRow + 1 ≤ 2 ^ 17 := hsmall.rows
  have hrow : saturatingAdd32 st.params.dstY (st.wordsReceived / st.wordsPerRow) =
      st.params.dstY + st.wordsReceived / st.wordsPerRow := saturatingAdd32_eq (by omega)
  have hnoted : Tracked palette m (({ m with
      vram := (expandWord m.vram st.params st.wordsPerRow st.wordsReceived word).1 } : Device).noteBlitRect
        st.params.dstBase st.params.dstPitch
        (saturatingAdd32 st.params.dstY (st.wordsReceived / st.wordsPerRow)) 1) := by
    rw [hrow]
    refine noteBlitRect_tracked h hsmall hreports (fun hin => ?_) fun hdepth => ?_
    · exact expandWord_within hin hsmall m.vram word
    · exact absurd harmed.valid hdepth
  unfold Device.feedStream
  dsimp only
  split_ifs
  · exact hnoted
  · exact hnoted

theorem runCommand_tracked (h : Sound m)
    (hreports : ∀ e, m.commandExtent (m.command &&& 0xff#32).toNat = some e → m.Reports e) :
    Tracked palette m m.runCommand := by
  have hidle : Sound { m with expand := none } := { h with expand := nofun }
  have hran : Tracked palette { m with expand := none }
      (({ m with expand := none } : Device).dispatch (m.command &&& 0xff#32).toNat) :=
    dispatch_tracked hidle hreports
  exact hran

theorem feedMonoWord_tracked (h : Sound m)
    (hreports : ∀ st, m.expand = some st →
      m.Reports (st.params.wordExtent st.wordsPerRow st.wordsReceived)) (word : BitVec 32) :
    Tracked palette m (m.feedMonoWord word) := by
  unfold Device.feedMonoWord
  split
  · exact .refl m
  · exact feedStream_tracked h (h.expand _ ‹_›) (hreports _ ‹_›) word

/-- A control register that is as it was, or without an overlay, shows nowhere. -/
theorem control_tracked {control : BitVec 32}
    (hshown : ¬ (m.control ≠ control ∧ m.overlayEnabled = true)) :
    Tracked palette m { m with control } := by
  refine Or.inl ⟨rfl, fun y _ => ⟨?_, fun _ h => h⟩⟩
  by_cases hsame : m.control = control
  · rw [← hsame]
  · have hoff : m.overlayEnabled = false := Bool.eq_false_iff.mpr fun hon => hshown ⟨hsame, hon⟩
    have hrow : ({ m.screen with control := control } : Screen).scanoutRow palette y =
        m.screen.scanoutRow palette y := @scanoutRow_control m.screen hoff control palette y
    exact congrArg (fun row => if y < m.display.height then some row else none) hrow

theorem writeControl_tracked (byte : ℕ) (value : UInt8) :
    Tracked palette m (m.writeControl byte value) := by
  unfold Device.writeControl
  dsimp only
  generalize withByte m.control byte value = next
  split_ifs with hreset hshown hshown
  · exact markFullDamage_tracked rfl
  · have hkept : Tracked palette m { m with control := next &&& ~~~(1#32) } :=
      control_tracked hshown
    exact hkept
  · exact markFullDamage_tracked rfl
  · exact control_tracked hshown

theorem Tracked.ite {p : Prop} [Decidable p] {m₁ m₂ : Device} (h : p → Tracked palette m m₁)
    (h' : ¬ p → Tracked palette m m₂) : Tracked palette m (if p then m₁ else m₂) :=
  iteInduction h h'

theorem writeMmioU8_tracked (h : Sound m) {offset : ℕ} {value : UInt8}
    (hcontained : Contained m (.mmio offset value)) :
    Tracked palette m (m.writeMmioU8 offset value) := by
  obtain ⟨hcommand, hmono⟩ := hcontained
  unfold Device.writeMmioU8
  refine .ite (fun hreg => .ite (fun hbyte => ?_) fun _ => .refl m) fun _ => ?_
  · rw [hbyte]
    have hlatched : Sound { m with command := withByte m.command 3 value } := { h with }
    exact runCommand_tracked hlatched (hcommand (by omega))
  refine .ite (fun hreg => .ite (fun hbyte => ?_) fun _ => .refl m) fun _ => ?_
  · rw [hbyte]
    have hlatched : Sound { m with monoData := withByte m.monoData 3 value } := { h with }
    exact feedMonoWord_tracked hlatched (hmono (by omega)) _
  refine .ite (fun _ => writeControl_tracked _ value) fun _ => .ite (fun _ => .refl m) fun _ => ?_
  refine .ite (fun _ => .ite (fun _ => markFullDamage_tracked rfl) fun _ => .refl m) fun _ => ?_
  refine .ite (fun _ => .ite (fun _ => markFullDamage_tracked rfl) fun _ => .refl m) fun _ => ?_
  exact .ite (fun _ => .refl m) fun _ => .refl m

/-- Noting a write does not look at the store. -/
theorem noteVramWrite_store (m : Device) (vram : FrameStore) (offset bytes : ℕ) :
    ({ m with vram := vram } : Device).noteVramWrite offset bytes =
      { m.noteVramWrite offset bytes with vram := vram } := by
  unfold Device.noteVramWrite Device.markRows Device.markFullDamage Device.overlayEnabled
    Device.cursorEnabled Device.overlayReg Device.cursorReg
  cases checkedAdd64 offset bytes with
  | none => rfl
  | some writeEnd =>
    dsimp only
    split_ifs <;> rfl

theorem writeDirect_tracked (h : Sound m) (offset : ℕ) (bytes : List UInt8) :
    Tracked palette m (m.writeDirect offset bytes) := by
  unfold Device.writeDirect
  dsimp only
  split_ifs with hin
  · obtain ⟨generation, rows, -, hnoted⟩ := noteVramWrite_remarked m offset bytes.length
    have hvram : (m.noteVramWrite offset bytes.length).vram = m.vram := by rw [hnoted]
    have hfits := m.vram.fits
    have htracked : Tracked palette m (({ m with
        vram := { m.vram with byte := put m.vram.byte offset bytes } } : Device).noteVramWrite offset
          bytes.length) :=
      noteVramWrite_tracked h.display (put_within m.vram (Nat.le_refl _) (Nat.le_refl _)) (by omega)
    rw [noteVramWrite_store] at htracked
    rw [hvram]
    exact htracked
  · exact .refl m

theorem writeBulk_tracked (contents : ℕ → UInt8) : Tracked palette m (m.writeBulk contents) := by
  have hsame : m.writeBulk contents =
      ({ m with vram := { m.vram with byte := contents } } : Device).markFullDamage := by
    unfold Device.writeBulk Device.markFullDamage
    dsimp only
    split_ifs <;> rfl
  rw [hsame]
  exact markFullDamage_tracked rfl

theorem advanceFrames_tracked (frames : ℕ) : Tracked palette m (m.advanceFrames frames) := by
  unfold Device.advanceFrames
  dsimp only
  split_ifs with hpending hmoved
  · exact markFullDamage_tracked rfl
  · rw [not_not] at hmoved
    rw [← hmoved]
    exact .refl m
  · exact .refl m

theorem step_tracked (h : Sound m) {event : Event} (hcontained : Contained m event) :
    Tracked palette m (step m event) := by
  cases event with
  | mmio offset value => exact writeMmioU8_tracked h hcontained
  | vramByte offset value =>
    show Tracked palette m (m.writeVramU8 offset value)
    unfold Device.writeVramU8
    split_ifs with hchanged
    · have hfits := m.vram.fits
      exact noteVramWrite_tracked h.display (put_within m.vram (Nat.le_refl _) (Nat.le_refl _))
        (by omega)
    · exact .refl m
  | direct offset bytes => exact writeDirect_tracked h offset bytes
  | bulk contents => exact writeBulk_tracked contents
  | setMode number =>
    show Tracked palette m (m.setMode number)
    unfold Device.setMode
    split
    · exact .refl m
    · exact markFullDamage_tracked rfl
  | displayStart start =>
    show Tracked palette m (m.programDisplayStart start)
    unfold Device.programDisplayStart
    split_ifs
    · exact .refl m
    · exact .refl m
  | frames count => exact advanceFrames_tracked count
  | busy ns => exact .refl m
  | credit elapsedNs => exact .refl m

structure Accounted (palette : ℕ → ℕ) (m₀ : Device) (k : ℕ) (m : Device) : Prop where
  generation : m.contentGeneration = (m₀.contentGeneration + k) % 2 ^ 64
  rows : ∀ y < m.display.height, m.rowAt palette y = m₀.rowAt palette y ∨
    ∃ j, 0 < j ∧ j ≤ k ∧ m.rowGenerations[y]? = some ((m₀.contentGeneration + j) % 2 ^ 64)

theorem Accounted.kept {m₀ : Device} {k : ℕ} (h : Accounted palette m₀ k m) {y : ℕ}
    (hy : y < m'.display.height) (hkept : KeptRow palette m m' y) :
    m'.rowAt palette y = m₀.rowAt palette y ∨
      ∃ j, 0 < j ∧ j ≤ k ∧ m'.rowGenerations[y]? = some ((m₀.contentGeneration + j) % 2 ^ 64) := by
  obtain ⟨hrow, hgens⟩ := hkept
  have hold : y < m.display.height := by
    by_contra hout
    unfold Device.rowAt at hrow
    rw [if_pos hy, if_neg hout] at hrow
    cases hrow
  rcases h.rows y hold with hsame | ⟨j, hpos, hle, hgen⟩
  · exact Or.inl (hrow.trans hsame)
  · exact Or.inr ⟨j, hpos, hle, hgens _ hgen⟩

/-- A step that accounts for what it changes adds at most one generation. -/
theorem Accounted.step {m₀ : Device} {k : ℕ} (h : Accounted palette m₀ k m)
    (htracked : Tracked palette m m') : ∃ k' ≤ k + 1, Accounted palette m₀ k' m' := by
  rcases htracked with ⟨hgen, hrows⟩ | ⟨hgen, hrows⟩
  · exact ⟨k, Nat.le_succ k, hgen.trans h.generation, fun y hy => h.kept hy (hrows y hy)⟩
  · have hgen' : m'.contentGeneration = (m₀.contentGeneration + (k + 1)) % 2 ^ 64 := by
      rw [hgen, h.generation]
      omega
    refine ⟨k + 1, Nat.le_refl _, hgen', fun y hy => ?_⟩
    rcases hrows y hy with hmarked | hkept
    · refine Or.inr ⟨k + 1, Nat.succ_pos k, Nat.le_refl _, ?_⟩
      rw [← hgen']
      exact hmarked
    · rcases h.kept hy hkept with hsame | ⟨j, hpos, hle, hat⟩
      · exact Or.inl hsame
      · exact Or.inr ⟨j, hpos, Nat.le_succ_of_le hle, hat⟩

theorem Accounted.exec {m₀ : Device} (events : List Event) : ∀ {m : Device} {k : ℕ}, Sound m →
    Accounted palette m₀ k m → Along Margo.step Contained events m →
    ∃ k' ≤ k + events.length, Accounted palette m₀ k' (exec Margo.step events m) := by
  induction events with
  | nil => exact fun _ h _ => ⟨_, Nat.le_refl _, h⟩
  | cons event rest ih =>
    intro m k hsound h hall
    obtain ⟨hcontained, hrest⟩ := hall
    obtain ⟨k', hle, hstep⟩ := h.step (step_tracked hsound hcontained)
    obtain ⟨k'', hle', hrun⟩ := ih (hsound.step event) hstep hrest
    refine ⟨k'', ?_, hrun⟩
    rw [List.length_cons]
    omega

/-- In a run after which every blit reports what it draws, and of fewer than `2 ^ 63` steps, every
row that differs from what it was is among the changed rows. -/
theorem changed_rows_reported (palette : ℕ → ℕ) (before after : List Event)
    (hshort : after.length < 2 ^ 63)
    (hcontained : Along step Contained after (exec step before Device.default)) (y : ℕ)
    (hy : y < (exec step (before ++ after) Device.default).display.height)
    (hdiffers : (exec step (before ++ after) Device.default).rowAt palette y ≠
      (exec step before Device.default).rowAt palette y) :
    Covered ((exec step (before ++ after) Device.default).changedRowsSince
      (exec step before Device.default).contentGeneration) y := by
  have hsound : Sound (exec step before Device.default) := Sound.default.exec before
  rw [exec_append] at *
  generalize exec step before Device.default = m₀ at *
  have hstart : Accounted palette m₀ 0 m₀ := by
    refine ⟨?_, fun y _ => Or.inl rfl⟩
    exact (Nat.mod_eq_of_lt hsound.generation).symm
  obtain ⟨k, hk, hrun⟩ := Accounted.exec after hsound hstart hcontained
  rw [covered_changedRowsSince]
  rcases hrun.rows y hy with hsame | ⟨j, hpos, hle, hgen⟩
  · exact absurd hsame hdiffers
  · exact ⟨_, hgen, rowDirty_later hsound.generation hpos (by omega)⟩

def writeRegister (reg value : ℕ) : List Event :=
  (List.range 4).map fun i => .mmio (reg + i) (UInt8.ofNat (value / 256 ^ i))

def fillSetup (x : ℕ) : List Event :=
  .setMode 0x101 :: (writeRegister regDstPitch 640 ++ writeRegister regDepth 1 ++
    writeRegister regDstXy x ++ writeRegister regDim 0x00010002 ++ writeRegister regFgColor 0xff ++
    writeRegister regRop 0xf0)

def fillCommand : List Event := writeRegister regCommand 1

/-- Two pixels at the left of the first row: it is reported. -/
theorem left_fill_reported :
    Covered ((exec step (fillSetup 0 ++ fillCommand) Device.default).changedRowsSince
      (exec step (fillSetup 0) Device.default).contentGeneration) 0 := by
  refine changed_rows_reported id (fillSetup 0) fillCommand (by decide)
    (by decide +kernel) 0 (by decide +kernel) fun hsame => ?_
  have hpixel := congrArg (fun row => row.map List.head?) hsame
  exact absurd hpixel (by decide +kernel)

/-- Two pixels at the right end of the first row: the second of them is the first of the second row,
which changes and is not reported. -/
theorem right_fill_unreported :
    (exec step (fillSetup 639 ++ fillCommand) Device.default).rowAt id 1 ≠
      (exec step (fillSetup 639) Device.default).rowAt id 1 ∧
    ¬ Covered ((exec step (fillSetup 639 ++ fillCommand) Device.default).changedRowsSince
      (exec step (fillSetup 639) Device.default).contentGeneration) 1 := by
  constructor
  · intro hsame
    have hpixel := congrArg (fun row => row.map List.head?) hsame
    exact absurd hpixel (by decide +kernel)
  · have hranges : (exec step (fillSetup 639 ++ fillCommand) Device.default).changedRowsSince
        (exec step (fillSetup 639) Device.default).contentGeneration = [(0, 1)] := by decide +kernel
    rw [hranges]
    rintro ⟨r, hr, hfrom, hto⟩
    cases List.mem_singleton.mp hr
    omega

end IzarraVM.Margo
