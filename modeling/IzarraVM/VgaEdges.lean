import IzarraVM.VgaTiming

/-! The distances to the status bits' changes are exact, but for two odd geometries. -/
namespace IzarraVM.Vga

open Raster

structure Shape (t : CrtcTiming) : Prop where
  charWidth_pos : 0 < t.charWidth
  charWidth_le : t.charWidth ≤ 16
  htotalChars_pos : 0 < t.htotalChars
  htotalChars_le : t.htotalChars ≤ 512
  hdispEnd_pos : 0 < t.hdispEnd
  hdispEnd_le : t.hdispEnd ≤ t.htotalChars * t.charWidth
  vtotal_pos : 0 < t.vtotal
  retrace : t.vretraceStart < t.vretraceEnd
  vretraceEnd_le : t.vretraceEnd ≤ 2 ^ 14

instance (t : CrtcTiming) : Decidable (Shape t) :=
  decidable_of_iff (0 < t.charWidth ∧ t.charWidth ≤ 16 ∧ 0 < t.htotalChars ∧ t.htotalChars ≤ 512 ∧
      0 < t.hdispEnd ∧ t.hdispEnd ≤ t.htotalChars * t.charWidth ∧ 0 < t.vtotal ∧
      t.vretraceStart < t.vretraceEnd ∧ t.vretraceEnd ≤ 2 ^ 14)
    ⟨fun ⟨h₁, h₂, h₃, h₄, h₅, h₆, h₇, h₈, h₉⟩ => ⟨h₁, h₂, h₃, h₄, h₅, h₆, h₇, h₈, h₉⟩,
      fun ⟨h₁, h₂, h₃, h₄, h₅, h₆, h₇, h₈, h₉⟩ => ⟨h₁, h₂, h₃, h₄, h₅, h₆, h₇, h₈, h₉⟩⟩

theorem tenBits_lt (low high8 : UInt8) (bit8 : ℕ) (high9 : UInt8) (bit9 : ℕ) :
    tenBits low high8 bit8 high9 bit9 < 2 ^ 10 := by
  have hlow := low.toNat_lt
  have hbit8 : high8.toNat >>> bit8 &&& 1 ≤ 1 := Nat.and_le_right
  have hbit9 : high9.toNat >>> bit9 &&& 1 ≤ 1 := Nat.and_le_right
  unfold tenBits
  refine Nat.or_lt_two_pow (Nat.or_lt_two_pow (by omega) ?_) ?_
  · rw [Nat.shiftLeft_eq]
    omega
  · rw [Nat.shiftLeft_eq]
    omega

/-- The low nibble of the end is compared with the counter, so the end is in the sixteen lines after
the start. -/
theorem vretraceEnd_spec (start target : ℕ) (htarget : target < 16) :
    start < (if start >>> 4 <<< 4 ||| target ≤ start then (start >>> 4 <<< 4 ||| target) + 0x10
      else start >>> 4 <<< 4 ||| target) ∧
    (if start >>> 4 <<< 4 ||| target ≤ start then (start >>> 4 <<< 4 ||| target) + 0x10
      else start >>> 4 <<< 4 ||| target) ≤ start + 16 := by
  have hor : start >>> 4 <<< 4 ||| target = start / 16 * 16 + target := by
    rw [← Nat.shiftLeft_add_eq_or_of_lt htarget, Nat.shiftRight_eq_div_pow, Nat.shiftLeft_eq]
  rw [hor]
  split_ifs with h
  · omega
  · omega

variable {t : CrtcTiming}

theorem Shape.setCgaWidth (h : Shape t) (width : CgaWidth) :
    Shape (setCgaWidth width t) := by
  cases width <;>
    exact ⟨by simp [Vga.setCgaWidth], by simp [Vga.setCgaWidth], by simp [Vga.setCgaWidth],
      by simp [Vga.setCgaWidth], by simp [Vga.setCgaWidth], by simp [Vga.setCgaWidth],
      h.vtotal_pos, h.retrace, h.vretraceEnd_le⟩

theorem Decoded.shape (h : Decoded t) : Shape t := by
  induction h with
  | table h =>
    have hall : ∀ t ∈ standardTimings, Shape t := by decide
    exact hall _ h
  | halfWidth h =>
    rcases h with rfl | rfl
    · decide
    · decide
  | vertical r _ ih =>
    have hstart := tenBits_lt r.r10 r.r07 2 r.r07 7
    have htarget : r.r11.toNat &&& 0x0f < 16 := Nat.lt_succ_of_le Nat.and_le_right
    obtain ⟨hafter, hnear⟩ := vretraceEnd_spec (tenBits r.r10 r.r07 2 r.r07 7) _ htarget
    refine ⟨ih.charWidth_pos, ih.charWidth_le, ih.htotalChars_pos, ih.htotalChars_le,
      ih.hdispEnd_pos, ih.hdispEnd_le, Nat.succ_pos _, hafter, Nat.le_trans hnear ?_⟩
    omega
  | @horizontal r00 r01 eightBit t _ ih =>
    have hr00 := r00.toNat_lt
    have hr01 := r01.toNat_lt
    have hwidth := ih.charWidth_pos
    refine ⟨ih.charWidth_pos, ih.charWidth_le, ?_, ?_, ?_, ?_, ih.vtotal_pos, ih.retrace,
      ih.vretraceEnd_le⟩
    · show 0 < max (r00.toNat + 5) (max (r01.toNat + 1) 1)
      omega
    · show max (r00.toNat + 5) (max (r01.toNat + 1) 1) ≤ 512
      omega
    · exact Nat.lt_of_lt_of_le Nat.one_pos (Nat.le_max_right _ _)
    · show max (max (r01.toNat + 1) 1 * t.charWidth / (if eightBit then 2 else 1)) 1 ≤
        max (r00.toNat + 5) (max (r01.toNat + 1) 1) * t.charWidth
      have hle : max (r01.toNat + 1) 1 * t.charWidth ≤
          max (r00.toNat + 5) (max (r01.toNat + 1) 1) * t.charWidth :=
        Nat.mul_le_mul_right _ (Nat.le_max_right _ _)
      have hone : 1 * 1 ≤ max (r01.toNat + 1) 1 * t.charWidth :=
        Nat.mul_le_mul (Nat.le_max_right _ _) hwidth
      have hdiv := Nat.div_le_self (max (r01.toNat + 1) 1 * t.charWidth) (if eightBit then 2 else 1)
      omega
  | cgaHorizontal r00 r01 highRes _ ih =>
    have hr00 := r00.toNat_lt
    have hr01 := r01.toNat_lt
    refine ⟨?_, ?_, ?_, ?_, ?_, ?_, ih.vtotal_pos, ih.retrace, ih.vretraceEnd_le⟩
    · show 0 < if highRes then 16 else 8
      split_ifs <;> decide
    · show (if highRes then 16 else 8) ≤ 16
      split_ifs <;> decide
    · show 0 < max (r00.toNat + 1) (max r01.toNat 1)
      omega
    · show max (r00.toNat + 1) (max r01.toNat 1) ≤ 512
      omega
    · show 0 < max r01.toNat 1 * if highRes then 16 else 8
      split_ifs <;> omega
    · exact Nat.mul_le_mul_right _ (Nat.le_max_right _ _)
  | @cgaVertical r t _ ih =>
    have hrows : (r.r09.toNat &&& 0x1f) ≤ 31 := Nat.and_le_right
    have hr04 := r.r04.toNat_lt
    have hr05 := r.r05.toNat_lt
    have hprod : (r.r04.toNat + 1) * ((r.r09.toNat &&& 0x1f) + 1) ≤ 256 * 32 :=
      Nat.mul_le_mul (by omega) (by omega)
    refine ⟨ih.charWidth_pos, ih.charWidth_le, ih.htotalChars_pos, ih.htotalChars_le,
      ih.hdispEnd_pos, ih.hdispEnd_le, ?_, ?_, ?_⟩
    · exact Nat.lt_of_lt_of_le Nat.one_pos (Nat.le_max_right _ _)
    · unfold recomputeCgaVerticalTiming
      dsimp only
      omega
    · unfold recomputeCgaVerticalTiming
      dsimp only
      omega
  | cgaWidth width _ ih => exact ih.setCgaWidth width

theorem Shape.htotalDots_eq (h : Shape t) :
    htotalDots t = t.htotalChars * t.charWidth := by
  have hle : t.htotalChars * t.charWidth ≤ 512 * 16 :=
    Nat.mul_le_mul h.htotalChars_le h.charWidth_le
  exact Nat.mod_eq_of_lt (by omega)

theorem Shape.htotalDots_pos (h : Shape t) : 0 < htotalDots t := by
  rw [h.htotalDots_eq]
  exact Nat.mul_pos h.htotalChars_pos h.charWidth_pos

theorem Shape.htotalDots_le (h : Shape t) : htotalDots t ≤ 512 * 16 := by
  rw [h.htotalDots_eq]
  exact Nat.mul_le_mul h.htotalChars_le h.charWidth_le

theorem Shape.frameDots_pos (h : Shape t) : 0 < frameDots t :=
  Nat.mul_pos h.htotalDots_pos h.vtotal_pos

variable (t : CrtcTiming)

def statusBit (displayForcedInactive : Bool) (bit beam : ℕ) : Bool :=
  (status1GeometryBits t beam displayForcedInactive).testBit bit

theorem testBit_ite (c : Bool) (i n : ℕ) :
    (if c then 2 ^ i else 0).testBit n = (c && decide (i = n)) := by
  cases c with
  | true => rw [if_pos rfl, Nat.testBit_two_pow, Bool.true_and]
  | false =>
    rw [if_neg Bool.false_ne_true, Nat.zero_testBit, Bool.false_and]

variable (forced : Bool)

theorem statusBit_eq (bit beam : ℕ) :
    statusBit t forced bit beam =
      ((forced || !beamDisplayEnable t beam) && decide (0 = bit) ||
        beamVretrace t beam && decide (3 = bit)) := by
  unfold statusBit status1GeometryBits
  rw [Nat.testBit_or]
  exact congrArg₂ _ (testBit_ite _ 0 bit) (testBit_ite _ 3 bit)

variable (beam : ℕ)

theorem statusBit_three :
    statusBit t forced 3 beam = beamVretrace t beam := by
  rw [statusBit_eq]
  simp

theorem statusBit_zero :
    statusBit t forced 0 beam = (forced || !beamDisplayEnable t beam) := by
  rw [statusBit_eq]
  simp

theorem statusBit_other {bit : ℕ} (beam : ℕ) (hzero : bit ≠ 0)
    (hthree : bit ≠ 3) : statusBit t forced bit beam = false := by
  rw [statusBit_eq, decide_eq_false (Ne.symm hzero), decide_eq_false (Ne.symm hthree),
    Bool.and_false, Bool.and_false]
  rfl

theorem beamVretrace_iff : beamVretrace t beam = true ↔
    t.vretraceStart ≤ beamLine t beam ∧ beamLine t beam < t.vretraceEnd := by
  unfold beamVretrace
  rw [Bool.and_eq_true, decide_eq_true_iff, decide_eq_true_iff]

theorem beamDisplayEnable_iff : beamDisplayEnable t beam = true ↔
    beamLine t beam < t.vdispEnd ∧ beamDot t beam < t.hdispEnd := by
  unfold beamDisplayEnable
  rw [Bool.and_eq_true, decide_eq_true_iff, decide_eq_true_iff]

def inFrame : ℕ := beam % frameDots t

section Geometry

variable {t : CrtcTiming} (h : Shape t)
include h

theorem Shape.inFrame_lt (beam : ℕ) : inFrame t beam < htotalDots t * t.vtotal :=
  Nat.mod_lt _ h.frameDots_pos

theorem Shape.beamLine_inFrame (beam k : ℕ) :
    beamLine t (inFrame t beam + k) = beamLine t (beam + k) :=
  line_mod_frame beam k h.htotalDots_pos

theorem Shape.beamVretrace_inFrame (beam k : ℕ) :
    beamVretrace t (inFrame t beam + k) = beamVretrace t (beam + k) := by
  unfold beamVretrace
  rw [h.beamLine_inFrame]

theorem Shape.beamDisplayEnable_inFrame (beam k : ℕ) :
    beamDisplayEnable t (inFrame t beam + k) = beamDisplayEnable t (beam + k) := by
  unfold beamDisplayEnable
  rw [h.beamLine_inFrame, beamDot, beamDot, ← @dot_mod_frame (htotalDots t) t.vtotal beam k]
  rfl

/-- Retrace as a span of dots in the frame. -/
theorem Shape.vretrace_in_frame_iff {p : ℕ} (hp : p < frameDots t) : beamVretrace t p = true ↔
    t.vretraceStart * htotalDots t ≤ p ∧ p < t.vretraceEnd * htotalDots t := by
  rw [beamVretrace_iff]
  exact and_congr (le_line_iff h.htotalDots_pos hp) (line_lt_iff h.htotalDots_pos hp)

theorem Shape.vretrace_next_frame (p : ℕ) :
    beamVretrace t (frameDots t + p) = beamVretrace t p := by
  unfold beamVretrace beamLine frameDots
  rw [line_next_frame p h.htotalDots_pos]

/-- The line after the retrace, or the frame's end. -/
theorem Shape.vretrace_first {beam : ℕ} {target : Bool} (hend : t.vretraceEnd ≤ t.vtotal)
    (hslip : target = false → ¬ (t.vretraceStart = 0 ∧ t.vretraceEnd = t.vtotal))
    (hnow : beamVretrace t (inFrame t beam) ≠ target) :
    FirstAt (fun k => beamVretrace t (inFrame t beam + k) = target)
      (untilEdge (frameDots t) (inFrame t beam)
        ((if target then t.vretraceStart else t.vretraceEnd) * htotalDots t)) := by
  have hwidth := h.htotalDots_pos
  have hb : inFrame t beam < frameDots t := h.inFrame_lt beam
  generalize inFrame t beam = b at *
  have hretrace := h.retrace
  -- the retrace's span ends inside the frame
  have hspan : t.vretraceStart * htotalDots t < t.vretraceEnd * htotalDots t :=
    Nat.mul_lt_mul_of_pos_right hretrace hwidth
  have hframe : t.vretraceEnd * htotalDots t ≤ frameDots t := by
    unfold frameDots
    rw [Nat.mul_comm]
    exact Nat.mul_le_mul_left _ hend
  have hin := two_frames (P := fun p => beamVretrace t p = true)
    (fun p => by rw [h.vretrace_next_frame]) fun p hp => h.vretrace_in_frame_iff hp
  cases target with
  | true =>
    have hnot : ¬ (t.vretraceStart * htotalDots t ≤ b ∧ b < t.vretraceEnd * htotalDots t) :=
      fun hspan => hnow ((h.vretrace_in_frame_iff hb).mpr hspan)
    rw [if_pos rfl]
    -- past the retrace, the next one is in the next frame
    have hedge := add_untilEdge (t.vretraceStart * htotalDots t) hb
    constructor
    · intro k hk hretraced
      have hspan' := (hin (b + k) (by omega)).mp hretraced
      omega
    · exact (hin _ (by omega)).mpr (by omega)
  | false =>
    have hinside := (h.vretrace_in_frame_iff hb).mp (Bool.not_eq_false _ |>.mp hnow)
    rw [if_neg Bool.false_ne_true, untilEdge, if_pos hinside.2]
    constructor
    · intro k hk hover
      have hretraced := (hin (b + k) (by omega)).mpr (by omega)
      rw [hretraced] at hover
      cases hover
    · show beamVretrace t (b + _) = false
      apply Bool.eq_false_iff.mpr
      intro hretraced
      have hspan' := (hin _ (by omega)).mp hretraced
      -- the retrace ends with the frame, and the next frame begins with one
      have hstart : t.vretraceStart = 0 := by
        rcases Nat.eq_zero_or_pos t.vretraceStart with hzero | hpos
        · exact hzero
        · have := Nat.mul_pos hpos hwidth
          omega
      have htotal : t.vretraceEnd = t.vtotal := by
        have hle : htotalDots t * t.vtotal ≤ t.vretraceEnd * htotalDots t := by
          unfold frameDots at hspan'
          omega
        rw [Nat.mul_comm] at hle
        exact Nat.le_antisymm hend (Nat.le_of_mul_le_mul_right hle hwidth)
      exact hslip rfl ⟨hstart, htotal⟩

/-- From the display into the blanking after it on the same line. -/
theorem Shape.inactive_first {b : ℕ} (hnow : beamDisplayEnable t b = true)
    (hslip : ¬ (t.hdispEnd = htotalDots t ∧
      (beamLine t b + 1 < t.vdispEnd ∨ t.vdispEnd = t.vtotal)))
    (hb : b < frameDots t) :
    FirstAt (fun k => beamDisplayEnable t (b + k) = false) (t.hdispEnd - beamDot t b) := by
  have hwidth := h.htotalDots_pos
  have hdisp : t.hdispEnd ≤ htotalDots t := by
    rw [h.htotalDots_eq]
    exact h.hdispEnd_le
  obtain ⟨hline, hdot⟩ := (beamDisplayEnable_iff t b).mp hnow
  constructor
  · intro k hk hoff
    have hsame : dot (htotalDots t) b + k < htotalDots t := by
      unfold beamDot at hk hdot
      omega
    have hon : beamDisplayEnable t (b + k) = true := by
      apply (beamDisplayEnable_iff t (b + k)).mpr
      unfold beamLine beamDot at *
      rw [line_add_of_lt hsame, dot_add_of_lt hsame]
      omega
    rw [hon] at hoff
    cases hoff
  · show beamDisplayEnable t (b + _) = false
    apply Bool.eq_false_iff.mpr
    intro hon
    obtain ⟨hline', hdot'⟩ := (beamDisplayEnable_iff t _).mp hon
    by_cases hblank : t.hdispEnd < htotalDots t
    · have hsame : dot (htotalDots t) b + (t.hdispEnd - beamDot t b) < htotalDots t := by
        unfold beamDot at *
        omega
      rw [beamDot, dot_add_of_lt hsame] at hdot'
      unfold beamDot at *
      omega
    · -- no blanking: the last displayed line, with lines below it
      have hfull : t.hdispEnd = htotalDots t := by omega
      obtain ⟨-, hnext⟩ := next_line b hwidth
      have hb' : b / htotalDots t < t.vtotal := Nat.div_lt_of_lt_mul hb
      have hnow' : beamLine t b = b / htotalDots t := line_of_lt hb
      rw [hfull] at hline'
      unfold beamLine line beamDot at hline'
      rw [hnext] at hline'
      rw [hnow'] at hslip hline
      have hlast : b / htotalDots t + 1 = t.vdispEnd := by omega
      rw [hlast, Nat.mod_eq_of_lt (by omega)] at hline'
      omega

/-- From the blanking to the next displayed line, which may be the next frame's first. -/
theorem Shape.active_first {b : ℕ} (hnow : beamDisplayEnable t b = false) (hvpos : 0 < t.vdispEnd)
    (hvdisp : t.vdispEnd ≤ t.vtotal) (hb : b < frameDots t) :
    FirstAt (fun k => beamDisplayEnable t (b + k) = true)
      (if beamLine t b + 1 < t.vdispEnd then htotalDots t - beamDot t b else frameDots t - b) := by
  have hwidth := h.htotalDots_pos
  have hdisp := h.hdispEnd_pos
  have hdot : beamDot t b < htotalDots t := Nat.mod_lt _ hwidth
  have hblank : ¬ (beamLine t b < t.vdispEnd ∧ beamDot t b < t.hdispEnd) := by
    intro hon
    rw [(beamDisplayEnable_iff t b).mpr hon] at hnow
    cases hnow
  have hnow' : beamLine t b = b / htotalDots t := line_of_lt hb
  split_ifs with hbelow
  · constructor
    · intro k hk hon
      have hsame : dot (htotalDots t) b + k < htotalDots t := by
        unfold beamDot at hk hdot
        omega
      obtain ⟨hline', hdot'⟩ := (beamDisplayEnable_iff t _).mp hon
      rw [beamDot, dot_add_of_lt hsame] at hdot'
      unfold beamDot at *
      omega
    · apply (beamDisplayEnable_iff t _).mpr
      obtain ⟨hzero, hnext⟩ := next_line b hwidth
      unfold beamLine line beamDot at *
      rw [hzero, hnext, ← hnow', Nat.mod_eq_of_lt (by omega)]
      exact ⟨hbelow, hdisp⟩
  · constructor
    · intro k hk hon
      obtain ⟨hline', hdot'⟩ := (beamDisplayEnable_iff t _).mp hon
      have hlater : beamLine t (b + k) = (b + k) / htotalDots t :=
        line_of_lt (by unfold frameDots at hk hb; omega)
      by_cases hsame : dot (htotalDots t) b + k < htotalDots t
      · have hline : beamLine t (b + k) = beamLine t b := line_add_of_lt hsame
        rw [beamDot, dot_add_of_lt hsame] at hdot'
        unfold beamDot at *
        omega
      · -- a later line of this frame is below the display
        obtain ⟨-, hnext⟩ := next_line b hwidth
        have hmono : (b + (htotalDots t - dot (htotalDots t) b)) / htotalDots t ≤
            (b + k) / htotalDots t := Nat.div_le_div_right (by omega)
        omega
    · apply (beamDisplayEnable_iff t _).mpr
      have hsum : b + (frameDots t - b) = htotalDots t * t.vtotal + 0 := by
        unfold frameDots at *
        omega
      unfold beamLine beamDot
      rw [hsum, line_next_frame 0 hwidth, dot_next_frame]
      unfold line dot
      rw [Nat.zero_div, Nat.zero_mod, Nat.zero_mod]
      exact ⟨hvpos, hdisp⟩

end Geometry

def RetraceStart : Prop :=
  beamLine t beam = t.vretraceStart ∧ beamDot t beam = 0 ∧ beamVretrace t beam = true

section Start

variable {t : CrtcTiming} (h : Shape t)
include h

theorem Shape.retraceStart_iff {p : ℕ} (hp : p < frameDots t) :
    RetraceStart t p ↔ p = t.vretraceStart * htotalDots t := by
  have hwidth := h.htotalDots_pos
  have hline : beamLine t p = p / htotalDots t := line_of_lt hp
  unfold RetraceStart
  rw [beamVretrace_iff, hline]
  constructor
  · rintro ⟨hstart, hdot, -⟩
    have hdiv := Nat.mod_add_div p (htotalDots t)
    unfold beamDot dot at hdot
    rw [← hstart, Nat.mul_comm]
    omega
  · rintro rfl
    have hdiv : t.vretraceStart * htotalDots t / htotalDots t = t.vretraceStart :=
      Nat.mul_div_cancel _ hwidth
    have hmod : beamDot t (t.vretraceStart * htotalDots t) = 0 := Nat.mul_mod_left _ _
    rw [hdiv, hmod]
    exact ⟨rfl, rfl, Nat.le_refl _, h.retrace⟩

theorem Shape.retraceStart_next_frame (p : ℕ) :
    RetraceStart t (frameDots t + p) ↔ RetraceStart t p := by
  unfold RetraceStart
  rw [h.vretrace_next_frame]
  unfold beamLine beamDot frameDots
  rw [line_next_frame p h.htotalDots_pos, dot_next_frame]

theorem Shape.retraceStart_inFrame (beam k : ℕ) :
    RetraceStart t (inFrame t beam + k) ↔ RetraceStart t (beam + k) := by
  unfold RetraceStart
  rw [h.beamVretrace_inFrame, h.beamLine_inFrame, beamDot, beamDot,
    ← @dot_mod_frame (htotalDots t) t.vtotal beam k]
  rfl

end Start

end IzarraVM.Vga
