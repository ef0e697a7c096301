import IzarraVM.CommonInstances

/-! DIV and IDIV (`core.rs`): quotient and remainder, or the fault that leaves the registers. -/
namespace IzarraVM.Cpu

inductive BusWidth where
  | byte
  | word
  | dword
  deriving DecidableEq

@[reducible] def BusWidth.bits : BusWidth → ℕ
  | .byte => 8
  | .word => 16
  | .dword => 32

def widthMask : BusWidth → BitVec 32
  | .byte => 0x000000ff
  | .word => 0x0000ffff
  | .dword => 0xffffffff

inductive InternalFault where
  | exception (vector : UInt8) (errorCode : Option UInt16)
  deriving DecidableEq

def divideError : InternalFault := .exception 0 none

/-- EAX, ECX, EDX, EBX, ESP, EBP, ESI, EDI. -/
abbrev Gpr := Fin 8 → BitVec 32

variable (r : Gpr)

namespace Gpr

variable (index : Fin 8)

def readGpr32 : BitVec 32 := r index

def writeGpr32 (value : BitVec 32) : Gpr :=
  Function.update r index value

def readGpr16 : BitVec 16 := (r index).setWidth 16

def writeGpr16 (value : BitVec 16) : Gpr :=
  Function.update r index (r index &&& 0xffff0000#32 ||| value.setWidth 32)

def byteReg : Fin 8 := ⟨index.val % 4, by omega⟩

def readGpr8 : BitVec 8 :=
  if index < 4 then (r (byteReg index)).setWidth 8 else (r (byteReg index) >>> 8).setWidth 8

def writeGpr8 (value : BitVec 8) : Gpr :=
  let reg := byteReg index
  Function.update r reg
    (if index < 4 then r reg &&& ~~~0xff#32 ||| value.setWidth 32
    else r reg &&& ~~~0xff00#32 ||| value.setWidth 32 <<< 8)

end Gpr

def checked (bits : ℕ) (f : ℤ → ℤ → ℤ) (a b : ℤ) : Option ℤ :=
  if b = 0 ∨ a = -2 ^ (bits - 1) ∧ b = -1 then none else some (f a b)

def divideUnsigned (dividend divisor limit : ℕ) (write : ℕ → ℕ → Gpr) :
    Except InternalFault Unit × Gpr :=
  let quotient := dividend / divisor
  if limit < quotient then (.error divideError, r)
  else (.ok (), write quotient (dividend % divisor))

def divideSigned (bits : ℕ) (dividend divisor low high : ℤ) (write : ℤ → ℤ → Gpr) :
    Except InternalFault Unit × Gpr :=
  match checked bits Int.tdiv dividend divisor, checked bits Int.tmod dividend divisor with
  | some quotient, some remainder =>
    if ¬ (low ≤ quotient ∧ quotient ≤ high) then (.error divideError, r)
    else (.ok (), write quotient remainder)
  | _, _ => (.error divideError, r)

namespace Gpr

def div (operand : BitVec 32) (signed : Bool) (width : BusWidth) :
    Except InternalFault Unit × Gpr :=
  if operand &&& widthMask width = 0 then (.error divideError, r)
  else
    match width, signed with
    | .byte, false =>
      divideUnsigned r (r.readGpr16 0).toNat (operand.setWidth 8).toNat 0xff
        fun q m => (r.writeGpr8 0 (.ofNat 8 q)).writeGpr8 4 (.ofNat 8 m)
    | .byte, true =>
      divideSigned r 32 (r.readGpr16 0).toInt (operand.setWidth 8).toInt (-0x80) 0x7f
        fun q m => (r.writeGpr8 0 (.ofInt 8 q)).writeGpr8 4 (.ofInt 8 m)
    | .word, false =>
      let dividend := (r.readGpr16 2).setWidth 32 <<< 16 ||| (r.readGpr16 0).setWidth 32
      divideUnsigned r dividend.toNat (operand.setWidth 16).toNat 0xffff
        fun q m => (r.writeGpr16 0 (.ofNat 16 q)).writeGpr16 2 (.ofNat 16 m)
    | .word, true =>
      let dividend := (r.readGpr16 2).setWidth 32 <<< 16 ||| (r.readGpr16 0).setWidth 32
      divideSigned r 32 dividend.toInt (operand.setWidth 16).toInt (-0x8000) 0x7fff
        fun q m => (r.writeGpr16 0 (.ofInt 16 q)).writeGpr16 2 (.ofInt 16 m)
    | .dword, false =>
      let dividend := (r.readGpr32 2).setWidth 64 <<< 32 ||| (r.readGpr32 0).setWidth 64
      divideUnsigned r dividend.toNat operand.toNat 0xffffffff
        fun q m => (r.writeGpr32 0 (.ofNat 32 q)).writeGpr32 2 (.ofNat 32 m)
    | .dword, true =>
      let dividend := (r.readGpr32 2).setWidth 64 <<< 32 ||| (r.readGpr32 0).setWidth 64
      divideSigned r 64 dividend.toInt operand.toInt (-0x80000000) 0x7fffffff
        fun q m => (r.writeGpr32 0 (.ofInt 32 q)).writeGpr32 2 (.ofInt 32 m)

def dividend : (width : BusWidth) → BitVec (2 * width.bits)
  | .byte => r.readGpr16 0
  | .word => r.readGpr16 2 ++ r.readGpr16 0
  | .dword => r.readGpr32 2 ++ r.readGpr32 0

def quotient : (width : BusWidth) → BitVec width.bits
  | .byte => r.readGpr8 0
  | .word => r.readGpr16 0
  | .dword => r.readGpr32 0

def remainder : (width : BusWidth) → BitVec width.bits
  | .byte => r.readGpr8 4
  | .word => r.readGpr16 2
  | .dword => r.readGpr32 2

def writeResult : (width : BusWidth) → BitVec width.bits → BitVec width.bits → Gpr
  | .byte, q, m => (r.writeGpr8 0 q).writeGpr8 4 m
  | .word, q, m => (r.writeGpr16 0 q).writeGpr16 2 m
  | .dword, q, m => (r.writeGpr32 0 q).writeGpr32 2 m

theorem readGpr16_writeGpr16 (i : Fin 8) (v : BitVec 16) :
    (r.writeGpr16 i v).readGpr16 i = v := by
  rw [readGpr16, writeGpr16, Function.update_self]
  simp

theorem readGpr8_low (x : BitVec 32) (v : BitVec 8) :
    ((x &&& ~~~0xff#32) ||| v.setWidth 32).setWidth 8 = v := by
  simp

theorem readGpr8_kept (x : BitVec 32) (v : BitVec 8) :
    ((x &&& ~~~0xff00#32) ||| v.setWidth 32 <<< 8).setWidth 8 = x.setWidth 8 := by
  ext i hi
  interval_cases i <;> simp

theorem readGpr8_high (x : BitVec 32) (v : BitVec 8) :
    (((x &&& ~~~0xff00#32) ||| v.setWidth 32 <<< 8) >>> 8).setWidth 8 = v := by
  ext i hi
  interval_cases i <;> simp

theorem writeGpr8_zero (v : BitVec 8) :
    r.writeGpr8 0 v 0 = r 0 &&& ~~~0xff#32 ||| v.setWidth 32 := by
  rw [writeGpr8, show byteReg 0 = 0 from rfl, Function.update_self, if_pos (by decide)]

theorem writeGpr8_four (v : BitVec 8) :
    r.writeGpr8 4 v 0 = r 0 &&& ~~~0xff00#32 ||| v.setWidth 32 <<< 8 := by
  rw [writeGpr8, show byteReg 4 = 0 from rfl, Function.update_self, if_neg (by decide)]

theorem quotient_writeResult (width : BusWidth) (q m : BitVec width.bits) :
    (r.writeResult width q m).quotient width = q := by
  cases width with
  | byte =>
    show readGpr8 _ 0 = q
    rw [readGpr8, if_pos (by decide), show byteReg 0 = 0 from rfl, writeResult, writeGpr8_four,
      readGpr8_kept, writeGpr8_zero, readGpr8_low]
  | word =>
    show readGpr16 _ 0 = q
    rw [writeResult, readGpr16, writeGpr16, Function.update_of_ne (by decide)]
    exact readGpr16_writeGpr16 r 0 q
  | dword =>
    show readGpr32 (r.writeResult .dword q m) 0 = q
    rw [writeResult, readGpr32, writeGpr32, Function.update_of_ne (by decide), writeGpr32,
      Function.update_self]

theorem remainder_writeResult (width : BusWidth) (q m : BitVec width.bits) :
    (r.writeResult width q m).remainder width = m := by
  cases width with
  | byte =>
    show readGpr8 _ 4 = m
    rw [readGpr8, if_neg (by decide), show byteReg 4 = 0 from rfl, writeResult, writeGpr8_four,
      readGpr8_high]
  | word => exact readGpr16_writeGpr16 _ 2 m
  | dword =>
    show readGpr32 (r.writeResult .dword q m) 2 = m
    rw [writeResult, readGpr32, writeGpr32, Function.update_self]

end Gpr

variable (signed : Bool)

def value {w : ℕ} (x : BitVec w) : ℤ := if signed then x.toInt else x.toNat

def Fits (w : ℕ) (q : ℤ) : Prop :=
  if signed then -2 ^ (w - 1) ≤ q ∧ q < 2 ^ (w - 1) else 0 ≤ q ∧ q < 2 ^ w

instance (signed : Bool) (w : ℕ) (q : ℤ) : Decidable (Fits signed w q) :=
  inferInstanceAs (Decidable (if signed then _ else _))

theorem value_ofInt {signed : Bool} {w : ℕ} (hw : 0 < w) {q : ℤ} (h : Fits signed w q) :
    value signed (BitVec.ofInt w q) = q := by
  cases signed with
  | true => exact BitVec.toInt_ofInt_eq_self hw h.1 h.2
  | false =>
    show ((BitVec.ofInt w q).toNat : ℤ) = q
    rw [BitVec.toNat_ofInt, Int.toNat_of_nonneg (Int.emod_nonneg _ (by positivity))]
    exact Int.emod_eq_of_lt h.1 (by exact_mod_cast h.2)

variable (operand : BitVec 32)

variable (width : BusWidth)

theorem widthMask_toNat :
    (operand &&& widthMask width).toNat = (operand.setWidth width.bits).toNat := by
  rw [BitVec.toNat_and, BitVec.toNat_setWidth]
  cases width
  · exact Nat.and_two_pow_sub_one_eq_mod operand.toNat 8
  · exact Nat.and_two_pow_sub_one_eq_mod operand.toNat 16
  · exact Nat.and_two_pow_sub_one_eq_mod operand.toNat 32

theorem value_eq_zero_iff {signed : Bool} {w : ℕ} (x : BitVec w) : value signed x = 0 ↔ x = 0 := by
  cases signed with
  | true =>
    rw [← BitVec.toInt_inj, show (0 : BitVec w).toInt = 0 from BitVec.toInt_zero]
    rfl
  | false =>
    show (x.toNat : ℤ) = 0 ↔ x = 0
    rw [Int.natCast_eq_zero]
    exact ⟨fun h => BitVec.eq_of_toNat_eq h, fun h => by rw [h]; rfl⟩

theorem mask_eq_zero_iff :
    operand &&& widthMask width = 0 ↔ value signed (operand.setWidth width.bits) = 0 := by
  rw [value_eq_zero_iff, ← BitVec.toNat_inj, widthMask_toNat, ← BitVec.toNat_inj]
  rfl

def outcome (dividend divisor : ℤ) :
    Except InternalFault Unit × Gpr :=
  if Fits signed width.bits (dividend.tdiv divisor) then
    (.ok (), r.writeResult width (.ofInt _ (dividend.tdiv divisor)) (.ofInt _ (dividend.tmod divisor)))
  else (.error divideError, r)

theorem divideUnsigned_eq (dividend divisor : ℕ) {limit : ℕ}
    (hlimit : limit = 2 ^ width.bits - 1) :
    divideUnsigned r dividend divisor limit
      (fun q m => r.writeResult width (.ofNat _ q) (.ofNat _ m)) =
      outcome r false width dividend divisor := by
  have hfits : Fits false width.bits ((dividend : ℤ).tdiv divisor) ↔
      ¬ limit < dividend / divisor := by
    have hpos : 0 < 2 ^ width.bits := Nat.two_pow_pos _
    show 0 ≤ (dividend : ℤ).tdiv divisor ∧ (dividend : ℤ).tdiv divisor < 2 ^ width.bits ↔ _
    rw [← Int.ofNat_tdiv]
    refine ⟨fun h => ?_, fun h => ⟨Int.natCast_nonneg _, ?_⟩⟩
    · have := h.2
      norm_cast at this
      omega
    · norm_cast
      omega
  rw [divideUnsigned, outcome]
  simp only [hfits, ite_not]
  rw [← Int.ofNat_tdiv, ← Int.ofNat_tmod, BitVec.ofInt_natCast, BitVec.ofInt_natCast]

theorem divideSigned_eq (bits : ℕ) {dividend divisor low high : ℤ} (hbits : width.bits ≤ bits) (hdivisor : divisor ≠ 0)
    (hlow : low = -2 ^ (width.bits - 1)) (hhigh : high = 2 ^ (width.bits - 1) - 1) :
    divideSigned r bits dividend divisor low high
      (fun q m => r.writeResult width (.ofInt _ q) (.ofInt _ m)) =
      outcome r true width dividend divisor := by
  have hfits : Fits true width.bits (dividend.tdiv divisor) ↔
      low ≤ dividend.tdiv divisor ∧ dividend.tdiv divisor ≤ high := by
    rw [hlow, hhigh, Int.le_sub_one_iff]
    rfl
  rw [divideSigned, outcome]
  by_cases hover : dividend = -2 ^ (bits - 1) ∧ divisor = -1
  · -- The one quotient that leaves the wide type leaves the destination too.
    have hlarge : ¬ Fits true width.bits (dividend.tdiv divisor) := by
      obtain ⟨rfl, rfl⟩ := hover
      intro h
      have hpow : (2 : ℤ) ^ (width.bits - 1) ≤ 2 ^ (bits - 1) := by gcongr; omega
      have := h.2
      rw [Int.tdiv_neg, Int.tdiv_one, neg_neg] at this
      omega
    rw [checked, if_pos (.inr hover), if_neg hlarge]
  · rw [checked, checked, if_neg (not_or.mpr ⟨hdivisor, hover⟩),
      if_neg (not_or.mpr ⟨hdivisor, hover⟩)]
    simp only [hfits, ite_not]

theorem append_eq {w : ℕ} (high low : BitVec w) :
    high.setWidth (w + w) <<< w ||| low.setWidth (w + w) = high ++ low := by
  ext i hi
  by_cases hlow : i < w
  · simp [BitVec.getElem_append, hlow]
  · simp [BitVec.getElem_append, hlow, BitVec.getLsbD_of_ge low i (Nat.le_of_not_lt hlow),
      BitVec.getLsbD_eq_getElem (show i - w < w by omega)]

theorem div_eq (signed : Bool) (width : BusWidth) :
    r.div operand signed width =
      if value signed (operand.setWidth width.bits) = 0 then (.error divideError, r)
      else outcome r signed width (value signed (r.dividend width))
        (value signed (operand.setWidth width.bits)) := by
  unfold Gpr.div
  simp only [mask_eq_zero_iff signed]
  split_ifs with hzero
  · rfl
  · have hword : (r.readGpr16 2).setWidth 32 <<< 16 ||| (r.readGpr16 0).setWidth 32 =
        r.dividend .word := append_eq _ _
    have hdword : (r.readGpr32 2).setWidth 64 <<< 32 ||| (r.readGpr32 0).setWidth 64 =
        r.dividend .dword := append_eq _ _
    have hwhole : operand.setWidth 32 = operand := BitVec.setWidth_eq operand
    cases width with
    | byte =>
      cases signed with
      | false => exact divideUnsigned_eq r .byte _ _ rfl
      | true => exact divideSigned_eq r .byte 32 (by decide) hzero rfl rfl
    | word =>
      simp only [hword]
      cases signed with
      | false => exact divideUnsigned_eq r .word _ _ rfl
      | true => exact divideSigned_eq r .word 32 (by decide) hzero rfl rfl
    | dword =>
      simp only [hdword]
      rw [hwhole] at hzero ⊢
      cases signed with
      | false => exact divideUnsigned_eq r .dword _ _ rfl
      | true => exact divideSigned_eq r .dword 64 (by decide) hzero rfl rfl

theorem BusWidth.bits_pos : 0 < width.bits := by
  cases width <;> decide

theorem abs_tmod_lt (a : ℤ) {b : ℤ} (hb : b ≠ 0) : |a.tmod b| < |b| := by
  rw [Int.abs_eq_natAbs, Int.abs_eq_natAbs, Int.natAbs_tmod]
  exact_mod_cast Nat.mod_lt _ (Int.natAbs_pos.mpr hb)

/-- A remainder always fits, being smaller than its divisor. -/
theorem fits_tmod {signed : Bool} {v w : ℕ} (x : BitVec v) (y : BitVec w)
    (hy : value signed y ≠ 0) : Fits signed w ((value signed x).tmod (value signed y)) := by
  have hsmall := abs_tmod_lt (value signed x) hy
  cases signed with
  | true =>
    have hle : |y.toInt| ≤ 2 ^ (w - 1) := abs_le.mpr ⟨y.le_toInt, y.toInt_lt.le⟩
    have hlt := abs_lt.mp (lt_of_lt_of_le hsmall hle)
    exact ⟨hlt.1.le, hlt.2⟩
  | false =>
    have hlt : ((y.toNat : ℕ) : ℤ) < 2 ^ w := by exact_mod_cast y.isLt
    have hnonneg : 0 ≤ (value false x).tmod (value false y) :=
      Int.tmod_nonneg _ (Int.natCast_nonneg _)
    refine ⟨hnonneg, ?_⟩
    rw [abs_of_nonneg hnonneg] at hsmall
    exact lt_trans (lt_of_lt_of_eq hsmall (abs_of_nonneg (Int.natCast_nonneg _))) hlt

/-- DIV and IDIV leave `dividend = quotient * divisor + remainder`, the remainder smaller than the
divisor and zero or of the dividend's sign, exactly when the divisor is not zero and the quotient
fits its register. In every other case they fault and leave the registers. -/
theorem div_exact (signed : Bool) (width : BusWidth) :
    let dividend := value signed (r.dividend width)
    let divisor := value signed (operand.setWidth width.bits)
    if divisor ≠ 0 ∧ Fits signed width.bits (dividend.tdiv divisor) then
      ∃ r', r.div operand signed width = (.ok (), r') ∧
        value signed (r'.quotient width) = dividend.tdiv divisor ∧
        dividend = value signed (r'.quotient width) * divisor + value signed (r'.remainder width) ∧
        |value signed (r'.remainder width)| < |divisor| ∧
        (value signed (r'.remainder width) = 0 ∨
          (value signed (r'.remainder width)).sign = dividend.sign)
    else r.div operand signed width = (.error divideError, r) := by
  intro dividend divisor
  have hdiv := div_eq r operand signed width
  split_ifs with h
  · obtain ⟨hdivisor, hfits⟩ := h
    have hrem := fits_tmod (r.dividend width) (operand.setWidth width.bits) hdivisor
    rw [if_neg hdivisor, outcome, if_pos hfits] at hdiv
    refine ⟨_, hdiv, ?_⟩
    rw [Gpr.quotient_writeResult, Gpr.remainder_writeResult, value_ofInt width.bits_pos hfits,
      value_ofInt width.bits_pos hrem]
    refine ⟨rfl, ?_, abs_tmod_lt _ hdivisor, ?_⟩
    · rw [Int.mul_comm, Int.mul_tdiv_add_tmod]
    · by_cases hdvd : divisor ∣ dividend
      · exact .inl (Int.tmod_eq_zero_of_dvd hdvd)
      · exact .inr (by rw [Int.sign_tmod, if_neg hdvd])
  · by_cases hdivisor : divisor = 0
    · rw [hdiv, if_pos hdivisor]
    · rw [hdiv, if_neg hdivisor, outcome, if_neg fun hfits => h ⟨hdivisor, hfits⟩]

/-- The most negative dividend by -1 faults; -7 by 2 is -3 with a remainder of -1. -/
example : (Gpr.div ![0, 0, 0x80000000, 0, 0, 0, 0, 0] 0xffffffff true .dword).1 =
      .error divideError ∧
    ((Gpr.div ![0xfff9, 0, 0, 0, 0, 0, 0, 0] 2 true .byte).2 0 = 0xfffd) := by
  decide

end IzarraVM.Cpu
