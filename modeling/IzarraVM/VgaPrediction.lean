import IzarraVM.VgaEdges

/-! What the predicted distances promise for every timing that the registers decode to. -/
namespace IzarraVM.Vga

open Raster

def Declined (t : CrtcTiming) (bit : ℕ) (displayForcedInactive : Bool) : Prop :=
  (bit = 3 ∧ 0 < t.vretraceStart ∧ t.vretraceStart < t.vtotal ∧ t.vtotal < t.vretraceEnd) ∨
    (bit = 0 ∧ displayForcedInactive = false ∧ t.hdispEnd < htotalDots t ∧ t.vtotal < t.vdispEnd)

def Unbroken (t : CrtcTiming) (beam bit : ℕ) (target : Bool) : Prop :=
  (bit = 3 ∧ target = false ∧ t.vretraceStart = 0 ∧ t.vretraceEnd = t.vtotal) ∨
    (bit = 0 ∧ target = true ∧ t.hdispEnd = htotalDots t ∧
      (beamLine t beam + 1 < t.vdispEnd ∨ t.vdispEnd = t.vtotal))

section Prediction

variable {t : CrtcTiming} (h : Shape t)
include h

theorem Shape.usable : ¬ (htotalDots t = 0 ∨ frameDots t = 0 ∨ t.vtotal = 0) := by
  have hwidth := h.htotalDots_pos
  have hframe := h.frameDots_pos
  have hlines := h.vtotal_pos
  omega

/-- A line's first dot is a 64-bit number. -/
theorem Shape.checkedMul64_eq {line : ℕ} (hline : line ≤ 2 ^ 14) :
    checkedMul64 line (htotalDots t) = some (line * htotalDots t) := by
  have hle : line * htotalDots t ≤ 2 ^ 14 * (512 * 16) := Nat.mul_le_mul hline h.htotalDots_le
  exact if_pos (by omega)

theorem Shape.dotsUntil_three (beam : ℕ) (target forced : Bool) :
    dotsUntilStatus1BitChange t beam 3 target forced =
      if t.vtotal < t.vretraceEnd then none
      else if beamVretrace t (inFrame t beam) = target then none
      else some (untilEdge (frameDots t) (inFrame t beam)
        ((if target then t.vretraceStart else t.vretraceEnd) * htotalDots t)) := by
  have hretrace := h.retrace
  have hend := h.vretraceEnd_le
  have hline : (if target then t.vretraceStart else t.vretraceEnd) ≤ 2 ^ 14 := by
    split_ifs <;> omega
  have hguard : (t.vretraceEnd ≤ t.vretraceStart ∨ t.vtotal < t.vretraceEnd) ↔
      t.vtotal < t.vretraceEnd := by omega
  unfold dotsUntilStatus1BitChange
  dsimp only
  rw [if_neg h.usable, if_pos rfl, h.checkedMul64_eq hline]
  simp only [hguard, Option.map_some]
  rfl

theorem Shape.dotsUntil_zero (beam : ℕ) (target forced : Bool) :
    dotsUntilStatus1BitChange t beam 0 target forced =
      if forced = true ∨ t.vdispEnd = 0 ∨ t.vtotal < t.vdispEnd then none
      else if (!beamDisplayEnable t (inFrame t beam)) = target then none
      else if target then some (t.hdispEnd - beamDot t (inFrame t beam))
      else some (if beamLine t (inFrame t beam) + 1 < t.vdispEnd then
          htotalDots t - beamDot t (inFrame t beam)
        else frameDots t - inFrame t beam) := by
  have hpos := h.hdispEnd_pos
  have hle : t.hdispEnd ≤ htotalDots t := by
    rw [h.htotalDots_eq]
    exact h.hdispEnd_le
  have hguard : (t.hdispEnd = 0 ∨ htotalDots t < t.hdispEnd ∨ t.vdispEnd = 0 ∨
      t.vtotal < t.vdispEnd) ↔ (t.vdispEnd = 0 ∨ t.vtotal < t.vdispEnd) := by omega
  unfold dotsUntilStatus1BitChange
  dsimp only
  rw [if_neg h.usable, if_neg (by decide), if_pos rfl]
  simp only [hguard]
  rw [← apply_ite some]
  rfl

theorem Shape.some_three {beam n : ℕ} {target forced : Bool}
    (hslip : ¬ Unbroken t beam 3 target)
    (hsome : dotsUntilStatus1BitChange t beam 3 target forced = some n) :
    FirstAt (fun k => statusBit t forced 3 (beam + k) = target) n := by
  rw [h.dotsUntil_three, Option.ite_none_left_eq_some, Option.ite_none_left_eq_some] at hsome
  obtain ⟨hcut, hnow, hn⟩ := hsome
  have hbroken : target = false → ¬ (t.vretraceStart = 0 ∧ t.vretraceEnd = t.vtotal) :=
    fun htarget hfill => hslip (Or.inl ⟨rfl, htarget, hfill⟩)
  have hfirst := h.vretrace_first (Nat.le_of_not_lt hcut) hbroken hnow
  rw [Option.some.inj hn] at hfirst
  simp only [h.beamVretrace_inFrame] at hfirst
  simp only [statusBit_three]
  exact hfirst

theorem Shape.some_zero {beam n : ℕ} {target forced : Bool}
    (hslip : ¬ Unbroken t beam 0 target)
    (hsome : dotsUntilStatus1BitChange t beam 0 target forced = some n) :
    FirstAt (fun k => statusBit t forced 0 (beam + k) = target) n := by
  rw [h.dotsUntil_zero, Option.ite_none_left_eq_some, Option.ite_none_left_eq_some] at hsome
  obtain ⟨husable, hnow, hn⟩ := hsome
  have hforced : forced = false := Bool.eq_false_iff.mpr fun hforced => husable (Or.inl hforced)
  have hinFrame : inFrame t beam < frameDots t := h.inFrame_lt beam
  have hline : beamLine t (inFrame t beam) = beamLine t beam := h.beamLine_inFrame beam 0
  simp only [statusBit_zero, hforced, Bool.false_or]
  cases target with
  | true =>
    rw [Bool.not_eq_true', Bool.not_eq_false] at hnow
    have hbroken : ¬ (t.hdispEnd = htotalDots t ∧
        (beamLine t (inFrame t beam) + 1 < t.vdispEnd ∨ t.vdispEnd = t.vtotal)) := by
      rw [hline]
      exact fun hfill => hslip (Or.inr ⟨rfl, rfl, hfill⟩)
    have hfirst := h.inactive_first hnow hbroken hinFrame
    rw [if_pos rfl] at hn
    rw [Option.some.inj hn] at hfirst
    simp only [h.beamDisplayEnable_inFrame] at hfirst
    simp only [Bool.not_eq_true']
    exact hfirst
  | false =>
    rw [Bool.not_eq_false', Bool.not_eq_true] at hnow
    have hfirst := h.active_first hnow (by omega) (by omega) hinFrame
    rw [if_neg Bool.false_ne_true] at hn
    rw [Option.some.inj hn] at hfirst
    simp only [h.beamDisplayEnable_inFrame] at hfirst
    simp only [Bool.not_eq_false']
    exact hfirst

/-- A retrace that starts below the frame, or that is cut short and starts with it, leaves the bit
as it is. -/
theorem Shape.vretrace_constant (hcut : t.vtotal < t.vretraceEnd)
    (hcovered : ¬ (0 < t.vretraceStart ∧ t.vretraceStart < t.vtotal)) (p q : ℕ) :
    beamVretrace t p = beamVretrace t q := by
  have hlt : ∀ p, beamLine t p < t.vtotal := fun p => Nat.mod_lt _ h.vtotal_pos
  have hp := hlt p
  have hq := hlt q
  unfold beamVretrace
  dsimp only
  congr 1
  · exact decide_eq_decide.mpr (by omega)
  · exact decide_eq_decide.mpr (by omega)

theorem Shape.none_three {beam : ℕ} {target forced : Bool} (hkept : ¬ Declined t 3 forced)
    (hnone : dotsUntilStatus1BitChange t beam 3 target forced = none) :
    statusBit t forced 3 beam = target ∨ ∀ k, statusBit t forced 3 (beam + k) ≠ target := by
  simp only [statusBit_three]
  by_cases hcut : t.vtotal < t.vretraceEnd
  · have hcovered : ¬ (0 < t.vretraceStart ∧ t.vretraceStart < t.vtotal) :=
      fun hstart => hkept (Or.inl ⟨rfl, hstart.1, hstart.2, hcut⟩)
    by_cases hnow : beamVretrace t beam = target
    · exact Or.inl hnow
    · refine Or.inr fun k => ?_
      rw [h.vretrace_constant hcut hcovered (beam + k) beam]
      exact hnow
  · rw [h.dotsUntil_three, if_neg hcut] at hnone
    have hnow : beamVretrace t (inFrame t beam) = target := by
      by_contra hnow
      rw [if_neg hnow] at hnone
      cases hnone
    rw [← hnow]
    exact Or.inl (h.beamVretrace_inFrame beam 0).symm

/-- Without lines on display, or with a display that fills a frame it is taller than, the display
does not change. -/
theorem Shape.displayEnable_constant
    (hcovered : t.vdispEnd = 0 ∨ (t.vtotal < t.vdispEnd ∧ htotalDots t ≤ t.hdispEnd)) (p q : ℕ) :
    beamDisplayEnable t p = beamDisplayEnable t q := by
  have hlt : ∀ p, beamLine t p < t.vtotal := fun p => Nat.mod_lt _ h.vtotal_pos
  have hdot : ∀ p, beamDot t p < htotalDots t := fun p => Nat.mod_lt _ h.htotalDots_pos
  have hp := hlt p
  have hq := hlt q
  have hdp := hdot p
  have hdq := hdot q
  rw [Bool.eq_iff_iff, beamDisplayEnable_iff, beamDisplayEnable_iff]
  omega

theorem Shape.none_zero {beam : ℕ} {target forced : Bool} (hkept : ¬ Declined t 0 forced)
    (hnone : dotsUntilStatus1BitChange t beam 0 target forced = none) :
    statusBit t forced 0 beam = target ∨ ∀ k, statusBit t forced 0 (beam + k) ≠ target := by
  simp only [statusBit_zero]
  cases forced with
  | true =>
    simp only [Bool.true_or]
    by_cases hnow : true = target
    · exact Or.inl hnow
    · exact Or.inr fun _ => hnow
  | false =>
    simp only [Bool.false_or]
    by_cases hunusable : t.vdispEnd = 0 ∨ t.vtotal < t.vdispEnd
    · have hcovered : t.vdispEnd = 0 ∨ (t.vtotal < t.vdispEnd ∧ htotalDots t ≤ t.hdispEnd) := by
        rcases hunusable with hnothing | htall
        · exact Or.inl hnothing
        · refine Or.inr ⟨htall, Nat.le_of_not_lt fun hblank => ?_⟩
          exact hkept (Or.inr ⟨rfl, rfl, hblank, htall⟩)
      by_cases hnow : (!beamDisplayEnable t beam) = target
      · exact Or.inl hnow
      · refine Or.inr fun k => ?_
        rw [h.displayEnable_constant hcovered (beam + k) beam]
        exact hnow
    · have hguard : ¬ (false = true ∨ t.vdispEnd = 0 ∨ t.vtotal < t.vdispEnd) := by
        rintro (hfalse | hunusable')
        · cases hfalse
        · exact hunusable hunusable'
      rw [h.dotsUntil_zero, if_neg hguard] at hnone
      have hnow : (!beamDisplayEnable t (inFrame t beam)) = target := by
        by_contra hnow
        rw [if_neg hnow] at hnone
        split_ifs at hnone
      have hsame : beamDisplayEnable t (inFrame t beam) = beamDisplayEnable t beam :=
        h.beamDisplayEnable_inFrame beam 0
      rw [← hnow, hsame]
      exact Or.inl rfl

theorem Shape.declined_none {bit : ℕ} {forced : Bool} (hdeclined : Declined t bit forced)
    (beam : ℕ) (target : Bool) : dotsUntilStatus1BitChange t beam bit target forced = none := by
  rcases hdeclined with ⟨rfl, -, -, hcut⟩ | ⟨rfl, -, -, htall⟩
  · rw [h.dotsUntil_three, if_pos hcut]
  · rw [h.dotsUntil_zero, if_pos (Or.inr (Or.inr htall))]

theorem Shape.vretraceStart_exact (beam : ℕ) :
    (∀ n, dotsUntilVretraceStart t beam = some n →
      0 < n ∧ RetraceStart t (beam + n) ∧ ∀ k, 0 < k → k < n → ¬ RetraceStart t (beam + k)) ∧
    (dotsUntilVretraceStart t beam = none → ∀ k, ¬ RetraceStart t (beam + k)) := by
  have hframe := h.frameDots_pos
  have hin : inFrame t beam < frameDots t := h.inFrame_lt beam
  have hunfold : dotsUntilVretraceStart t beam =
      if frameDots t ≤ t.vretraceStart * htotalDots t then none
      else some (untilEdge (frameDots t) (inFrame t beam) (t.vretraceStart * htotalDots t)) := by
    unfold dotsUntilVretraceStart
    dsimp only
    rw [if_neg (Nat.pos_iff_ne_zero.mp hframe)]
    rfl
  simp only [← h.retraceStart_inFrame beam]
  rw [hunfold]
  generalize inFrame t beam = b at *
  have hstarts := two_frames h.retraceStart_next_frame fun p hp => h.retraceStart_iff hp
  constructor
  · intro n hn
    rw [Option.ite_none_left_eq_some] at hn
    obtain ⟨hinside, hn⟩ := hn
    have hedge := add_untilEdge (t.vretraceStart * htotalDots t) hin
    rw [Option.some.inj hn] at hedge
    refine ⟨by omega, (hstarts _ (by omega)).mpr (by omega), fun k hk hlt hstart => ?_⟩
    have hat := (hstarts _ (by omega)).mp hstart
    omega
  · intro hnone k hstart
    have hbelow : frameDots t ≤ t.vretraceStart * htotalDots t := by
      by_contra hinside
      rw [if_neg hinside] at hnone
      cases hnone
    -- no line of the frame has the number
    have hline : beamLine t (b + k) < t.vtotal := Nat.mod_lt _ h.vtotal_pos
    rw [hstart.1] at hline
    have hlt := Nat.mul_lt_mul_of_pos_right hline h.htotalDots_pos
    unfold frameDots at hbelow
    rw [Nat.mul_comm] at hbelow
    omega

end Prediction

/-- Bits that the beam does not determine read zero, and no change of them is predicted. -/
theorem dotsUntil_other (t : CrtcTiming) (beam : ℕ) {bit : ℕ} (target forced : Bool) (hzero : bit ≠ 0)
    (hthree : bit ≠ 3) : dotsUntilStatus1BitChange t beam bit target forced = none := by
  unfold dotsUntilStatus1BitChange
  dsimp only
  rw [if_neg hthree, if_neg hzero, ite_self]

structure Exact (t : CrtcTiming) (beam : ℕ) : Prop where
  change : ∀ (bit : ℕ) (target forced : Bool) (n : ℕ), ¬ Unbroken t beam bit target →
    dotsUntilStatus1BitChange t beam bit target forced = some n →
    FirstAt (fun k => statusBit t forced bit (beam + k) = target) n
  settled : ∀ (bit : ℕ) (target forced : Bool), ¬ Declined t bit forced →
    dotsUntilStatus1BitChange t beam bit target forced = none →
    statusBit t forced bit beam = target ∨ ∀ k, statusBit t forced bit (beam + k) ≠ target
  declined : ∀ (bit : ℕ) (target forced : Bool), Declined t bit forced →
    dotsUntilStatus1BitChange t beam bit target forced = none
  start : ∀ n, dotsUntilVretraceStart t beam = some n →
    0 < n ∧ RetraceStart t (beam + n) ∧ ∀ k, 0 < k → k < n → ¬ RetraceStart t (beam + k)
  noStart : dotsUntilVretraceStart t beam = none → ∀ k, ¬ RetraceStart t (beam + k)

theorem prediction_exact {t : CrtcTiming} (ht : Decoded t) (beam : ℕ) : Exact t beam := by
  have h := ht.shape
  obtain ⟨hstart, hnoStart⟩ := h.vretraceStart_exact beam
  refine ⟨?_, ?_, fun bit target forced hdeclined => h.declined_none hdeclined beam target, hstart,
    hnoStart⟩
  · intro bit target forced n hslip hsome
    by_cases hthree : bit = 3
    · subst hthree
      exact h.some_three hslip hsome
    · by_cases hzero : bit = 0
      · subst hzero
        exact h.some_zero hslip hsome
      · rw [dotsUntil_other t beam target forced hzero hthree] at hsome
        cases hsome
  · intro bit target forced hkept hnone
    by_cases hthree : bit = 3
    · subst hthree
      exact h.none_three hkept hnone
    · by_cases hzero : bit = 0
      · subst hzero
        exact h.none_zero hkept hnone
      · -- the bit reads zero at every dot
        simp only [statusBit_other t forced _ hzero hthree]
        cases target with
        | true => exact Or.inr fun _ => Bool.false_ne_true
        | false => exact Or.inl rfl

theorem text03h_prediction : Decoded text03h ∧
    FirstAt (fun k => statusBit text03h false 3 (0 + k) = true) 370800 := by
  have ht : Decoded text03h := Decoded.table (by decide)
  refine ⟨ht, (prediction_exact ht 0).change 3 true false _ ?_ (by decide +kernel)⟩
  rintro (⟨-, hfalse, -⟩ | ⟨hbit, -⟩)
  · cases hfalse
  · cases hbit

def longRetrace : CrtcTiming :=
  recomputeVerticalTiming ⟨0x0b, 0xa2, 0x08, 0x08, 0xdf⟩ mode12h

/-- At the top of the frame no distance to the retrace is given, though it comes 520 lines later. -/
theorem cut_retrace_not_predicted : Decoded longRetrace ∧
    dotsUntilStatus1BitChange longRetrace 0 3 true false = none ∧
    ¬ (statusBit longRetrace false 3 0 = true ∨
      ∀ k, statusBit longRetrace false 3 (0 + k) ≠ true) := by
  refine ⟨Decoded.vertical _ (Decoded.table (by decide)), by decide +kernel, ?_⟩
  rintro (hnow | hnever)
  · exact absurd hnow (by decide +kernel)
  · exact hnever (520 * 800) (by decide +kernel)

end IzarraVM.Vga
