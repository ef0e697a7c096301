import IzarraVM.CpuDivide

/-! Shifts and rotates (`core.rs`): single-bit loops against shifts of words. -/
namespace IzarraVM.Cpu

def widthSign : BusWidth → BitVec 32
  | .byte => 0x00000080
  | .word => 0x00008000
  | .dword => 0x80000000

inductive Flag where
  | cf
  | pf
  | af
  | zf
  | sf
  | of
  deriving DecidableEq

inductive LazyFlagOp where
  | add
  | sub
  | logic
  deriving DecidableEq

structure PendingFlags where
  op : LazyFlagOp
  width : BusWidth
  a : BitVec 32
  b : BitVec 32
  result : BitVec 32
  cfOverride : Option Bool

structure Flags where
  eflags : Flag → Bool
  pendingFlags : Option PendingFlags

def parity (value : BitVec 8) : Bool := (List.range 8).countP value.getLsbD % 2 == 0

namespace Flags

variable (s : Flags)

def flag (flag : Flag) : Bool :=
  match s.pendingFlags with
  | none => s.eflags flag
  | some p =>
    let mask := widthMask p.width
    let sign := widthSign p.width
    match flag with
    | .zf => p.result &&& mask == 0
    | .sf => p.result &&& sign != 0
    | .pf => parity (p.result.setWidth 8)
    | .af =>
      if p.op = .logic then s.eflags .af else (p.a ^^^ p.b ^^^ p.result) &&& 0x10 != 0
    | .cf =>
      match p.cfOverride, p.op with
      | some cf, _ => cf
      | none, .logic => false
      | none, .sub => p.a.toNat < p.b.toNat
      | none, .add => mask.toNat < p.a.toNat + p.b.toNat
    | .of =>
      match p.op with
      | .logic => false
      | .sub => (p.a ^^^ p.b) &&& (p.a ^^^ p.result) &&& sign != 0
      | .add => (p.a ^^^ p.result) &&& (p.b ^^^ p.result) &&& sign != 0

def setFlagLive (flag : Flag) (enabled : Bool) : Flags :=
  { s with eflags := Function.update s.eflags flag enabled }

def materializeFlags : Flags := ⟨s.flag, none⟩

def setFlag (flag : Flag) (enabled : Bool) : Flags :=
  match s.pendingFlags with
  | none => s.setFlagLive flag enabled
  | some p =>
    if flag = .cf then { s with pendingFlags := some { p with cfOverride := some enabled } }
    else s.materializeFlags.setFlagLive flag enabled

def setSzpLive (result : BitVec 32) (width : BusWidth) : Flags :=
  ((s.setFlagLive .zf (result &&& widthMask width == 0)).setFlagLive .sf
    (result &&& widthSign width != 0)).setFlagLive .pf (parity (result.setWidth 8))

def setShiftResultFlags (cf of : Option Bool) (result : BitVec 32) (width : BusWidth) :
    Flags :=
  match s.pendingFlags with
  | none =>
    let s := match cf with
      | some cf => s.setFlagLive .cf cf
      | none => s
    let s := match of with
      | some of => s.setFlagLive .of of
      | none => s
    s.setSzpLive result width
  | some _ =>
    let cf := cf.getD (s.flag .cf)
    let of := of.getD (s.flag .of)
    let af := s.flag .af
    ((({ s with pendingFlags := none }.setFlagLive .cf cf).setFlagLive .of of).setFlagLive .af
      af).setSzpLive result width

end Flags

def ofBool (b : Bool) : BitVec 32 := (BitVec.ofBool b).setWidth 32

def shiftStep (op : Fin 8) (width : BusWidth) : BitVec 32 × Bool → BitVec 32 × Bool
  | (v, cf) =>
    let mask := widthMask width
    let msb := widthSign width
    let high := v &&& msb != 0
    let low := v &&& 1 != 0
    match op with
    | 0 => ((v <<< 1 ||| ofBool high) &&& mask, high)
    | 1 => (v >>> 1 ||| ofBool low <<< (width.bits - 1), low)
    | 2 => ((v <<< 1 ||| ofBool cf) &&& mask, high)
    | 3 => (v >>> 1 ||| ofBool cf <<< (width.bits - 1), low)
    | 4 | 6 => (v <<< 1 &&& mask, high)
    | 5 => (v >>> 1, low)
    | 7 => (v >>> 1 ||| v &&& msb, low)

def doubleStep (left : Bool) (width : BusWidth) :
    BitVec 32 × BitVec 32 × Bool → BitVec 32 × BitVec 32 × Bool
  | (d, s, _) =>
    let mask := widthMask width
    let msb := widthSign width
    if left then
      ((d <<< 1 ||| (s &&& msb) >>> (width.bits - 1)) &&& mask, s <<< 1 &&& mask, d &&& msb != 0)
    else (d >>> 1 ||| (s &&& 1) <<< (width.bits - 1), s >>> 1, d &&& 1 != 0)

def maskedCount (rawCount : BitVec 8) : ℕ := (rawCount &&& 0x1f).toNat

def Flags.shiftRotate (s : Flags) (op : Fin 8) (value : BitVec 32) (rawCount : BitVec 8)
    (width : BusWidth) : BitVec 32 × Flags :=
  let count := maskedCount rawCount
  if count = 0 then (value, s)
  else
    let mask := widthMask width
    let msb := widthSign width
    let cf := (op == 2 || op == 3) && s.flag .cf
    let (v, cf) := (shiftStep op width)^[count] (value &&& mask, cf)
    let top := v &&& msb != 0
    if 4 ≤ op then
      let of := if count = 1 then
          some (match op with
            | 5 => value &&& msb != 0
            | 7 => false
            | _ => top ^^ cf)
        else none
      (v &&& mask, s.setShiftResultFlags (some cf) of v width)
    else
      let s := s.setFlag .cf cf
      let s := if count = 1 then
          s.setFlag .of (match op with
            | 0 | 2 => top ^^ cf
            | _ => top ^^ (v &&& msb >>> 1 != 0))
        else s
      (v &&& mask, s)

inductive OperandSize where
  | word
  | dword
  deriving DecidableEq

@[reducible] def OperandSize.busWidth : OperandSize → BusWidth
  | .word => .word
  | .dword => .dword

def Flags.doubleShift (s : Flags) (left : Bool) (dest src : BitVec 32) (rawCount : BitVec 8)
    (operandSize : OperandSize) : BitVec 32 × Flags :=
  let count := maskedCount rawCount
  if count = 0 then (dest, s)
  else
    let width := operandSize.busWidth
    let bits := width.bits
    let mask := widthMask width
    let msb := widthSign width
    -- Past the width the destination is the source rotated by the count.
    if bits < count then
      let n := count % bits
      let x := src &&& mask
      let result :=
        if left then (x <<< n ||| x >>> (bits - n)) &&& mask
        else (x >>> n ||| x <<< (bits - n)) &&& mask
      (result, s.setShiftResultFlags none none result width)
    else
      let (d, _, cf) := (doubleStep left width)^[count] (dest &&& mask, src &&& mask, false)
      let of := if count = 1 then some ((dest ^^^ d) &&& msb != 0) else none
      (d &&& mask, s.setShiftResultFlags (some cf) of d width)

section Words

variable (width : BusWidth) (x : BitVec width.bits) (b : Bool)

theorem getLsbD_widthMask (i : ℕ) : (widthMask width).getLsbD i = decide (i < width.bits) := by
  have h (w : ℕ) (hw : w ≤ 32) : (BitVec.ofNat 32 (2 ^ w - 1)).getLsbD i = decide (i < w) := by
    rw [BitVec.getLsbD_ofNat, Nat.testBit_two_pow_sub_one]
    by_cases hi : i < w
    · simp [hi, Nat.lt_of_lt_of_le hi hw]
    · simp [hi]
  cases width
  exacts [h 8 (by decide), h 16 (by decide), h 32 (by decide)]

theorem getLsbD_widthSign (i : ℕ) :
    (widthSign width).getLsbD i = decide (i = width.bits - 1) := by
  have h (w : ℕ) (hw : w < 32) : (BitVec.ofNat 32 (2 ^ w)).getLsbD i = decide (i = w) := by
    rw [BitVec.getLsbD_ofNat, Nat.testBit_two_pow]
    by_cases hi : i = w
    · simp [hi, hw]
    · simp [hi, Ne.symm hi]
  cases width
  exacts [h 7 (by decide), h 15 (by decide), h 31 (by decide)]

theorem bits_le : width.bits ≤ 32 := by
  cases width <;> decide

variable {width}

def held : BitVec 32 := x.setWidth 32

theorem getLsbD_held (i : ℕ) : (held x).getLsbD i = x.getLsbD i := by
  rw [held, BitVec.getLsbD_setWidth]
  by_cases hi : i < width.bits
  · rw [decide_eq_true (Nat.lt_of_lt_of_le hi (bits_le width)), Bool.true_and]
  · rw [BitVec.getLsbD_of_ge x i (Nat.le_of_not_lt hi), Bool.and_false]

theorem getLsbD_ofBool (i : ℕ) : (ofBool b).getLsbD i = (decide (i = 0) && b) := by
  rw [ofBool, BitVec.getLsbD_setWidth, BitVec.getLsbD_ofBool]
  by_cases hi : i = 0
  · simp [hi]
  · simp [hi]

theorem setWidth_held : (held x).setWidth width.bits = x :=
  BitVec.setWidth_setWidth_of_le x (bits_le width) |>.trans (BitVec.setWidth_eq x)

theorem and_mask (value : BitVec 32) :
    value &&& widthMask width = held (value.setWidth width.bits) := by
  apply BitVec.eq_of_getLsbD_eq
  intro i _
  rw [BitVec.getLsbD_and, getLsbD_widthMask, getLsbD_held, BitVec.getLsbD_setWidth, Bool.and_comm]

/-- Two 32-bit words within the width are equal when their low bits are. -/
theorem eq_held {y : BitVec 32} (h : ∀ i, y.getLsbD i = x.getLsbD i) : y = held x := by
  apply BitVec.eq_of_getLsbD_eq
  intro i _
  rw [h, getLsbD_held]

def pushRight {w : ℕ} (b : Bool) (x : BitVec w) : BitVec w := (BitVec.cons b x >>> 1).setWidth w

theorem getLsbD_pushRight {w : ℕ} (b : Bool) (x : BitVec w) (i : ℕ) : (pushRight b x).getLsbD i =
    (decide (i < w) && if i + 1 = w then b else x.getLsbD (i + 1)) := by
  rw [pushRight, BitVec.getLsbD_setWidth, BitVec.getLsbD_ushiftRight, BitVec.getLsbD_cons,
    Nat.add_comm]

theorem held_left : (held x <<< 1 ||| ofBool b) &&& widthMask width = held (x.shiftConcat b) := by
  refine eq_held _ fun i => ?_
  have := bits_le width
  simp only [BitVec.getLsbD_and, BitVec.getLsbD_or, BitVec.getLsbD_shiftLeft, getLsbD_ofBool,
    BitVec.getLsbD_shiftConcat, getLsbD_held, getLsbD_widthMask]
  grind

theorem held_right :
    held x >>> 1 ||| ofBool b <<< (width.bits - 1) = held (pushRight b x) := by
  refine eq_held _ fun i => ?_
  have := bits_le width
  have := width.bits_pos
  simp only [BitVec.getLsbD_or, BitVec.getLsbD_shiftLeft, getLsbD_ofBool, BitVec.getLsbD_ushiftRight,
    getLsbD_pushRight, getLsbD_held]
  grind

/-- A test of one bit. -/
theorem and_ne_zero {y bit : BitVec 32} {k : ℕ} (hbit : ∀ i, bit.getLsbD i = decide (i = k)) :
    (y &&& bit != 0) = y.getLsbD k := by
  cases hy : y.getLsbD k with
  | true =>
    refine bne_iff_ne.mpr fun h => ?_
    have hk := congrArg (BitVec.getLsbD · k) h
    simp [hbit, hy] at hk
  | false =>
    refine bne_eq_false_iff_eq.mpr (BitVec.eq_of_getLsbD_eq fun i _ => ?_)
    rw [BitVec.getLsbD_and, hbit, show (0 : BitVec 32).getLsbD i = false from BitVec.getLsbD_zero]
    by_cases hi : i = k
    · rw [hi, hy, Bool.false_and]
    · rw [decide_eq_false hi, Bool.and_false]

theorem held_msb : (held x &&& widthSign width != 0) = x.msb := by
  rw [and_ne_zero (getLsbD_widthSign width), getLsbD_held, BitVec.msb_eq_getLsbD_last]

theorem held_lsb : (held x &&& 1 != 0) = x.getLsbD 0 := by
  have hone : ∀ i, (1 : BitVec 32).getLsbD i = decide (i = 0) := fun i => by
    rw [show (1 : BitVec 32) = ofBool true from rfl, getLsbD_ofBool, Bool.and_true]
  rw [and_ne_zero hone, getLsbD_held]

theorem held_sar : held x >>> 1 ||| held x &&& widthSign width = held (pushRight x.msb x) := by
  refine eq_held _ fun i => ?_
  have := bits_le width
  have := width.bits_pos
  simp only [BitVec.getLsbD_or, BitVec.getLsbD_and, BitVec.getLsbD_ushiftRight,
    getLsbD_pushRight, getLsbD_held, getLsbD_widthSign, BitVec.msb_eq_getLsbD_last]
  grind

end Words

section Rotations

variable {w : ℕ} (x : BitVec w) (b : Bool)

theorem shiftConcat_false : x.shiftConcat false = x <<< 1 := by
  apply BitVec.eq_of_getLsbD_eq
  intro i hi
  rw [BitVec.getLsbD_shiftConcat, BitVec.getLsbD_shiftLeft]
  grind

theorem pushRight_false : pushRight false x = x >>> 1 := by
  apply BitVec.eq_of_getLsbD_eq
  intro i hi
  rw [getLsbD_pushRight, BitVec.getLsbD_ushiftRight]
  grind

theorem pushRight_msb : pushRight x.msb x = x.sshiftRight 1 := by
  apply BitVec.eq_of_getLsbD_eq
  intro i hi
  rw [getLsbD_pushRight, BitVec.getLsbD_sshiftRight]
  grind

theorem getLsbD_rotateLeft_of_lt {i : ℕ} (hi : i < w) (r : ℕ) : (x.rotateLeft r).getLsbD i =
    x.getLsbD (if i < r % w then w - r % w + i else i - r % w) := by
  rw [BitVec.getLsbD_rotateLeft]
  by_cases h : i < r % w
  · simp [h]
  · simp [h, hi]

theorem getLsbD_rotateRight_of_lt {i : ℕ} (hi : i < w) (r : ℕ) : (x.rotateRight r).getLsbD i =
    x.getLsbD (if i < w - r % w then r % w + i else i - (w - r % w)) := by
  rw [BitVec.getLsbD_rotateRight]
  by_cases h : i < w - r % w
  · simp [h]
  · simp [h, hi]

theorem shiftConcat_msb (hw : 1 < w) : x.shiftConcat x.msb = x.rotateLeft 1 := by
  apply BitVec.eq_of_getLsbD_eq
  intro i hi
  rw [BitVec.getLsbD_shiftConcat, getLsbD_rotateLeft_of_lt x hi, BitVec.msb_eq_getLsbD_last,
    Nat.mod_eq_of_lt hw]
  grind

theorem pushRight_lsb (hw : 1 < w) : pushRight (x.getLsbD 0) x = x.rotateRight 1 := by
  apply BitVec.eq_of_getLsbD_eq
  intro i hi
  rw [getLsbD_pushRight, getLsbD_rotateRight_of_lt x hi, Nat.mod_eq_of_lt hw]
  grind

theorem cons_shiftConcat (hw : 0 < w) :
    BitVec.cons x.msb (x.shiftConcat b) = (BitVec.cons b x).rotateLeft 1 := by
  apply BitVec.eq_of_getLsbD_eq
  intro i hi
  rw [getLsbD_rotateLeft_of_lt _ hi, Nat.mod_eq_of_lt (by omega)]
  simp only [BitVec.getLsbD_cons, BitVec.getLsbD_shiftConcat, BitVec.msb_eq_getLsbD_last]
  by_cases hzero : i = 0
  · simp [hzero, hw, hw.ne]
  · rw [if_neg (show ¬ i < 1 by omega), if_neg (show i - 1 ≠ w by omega), if_neg hzero]
    by_cases htop : i = w
    · rw [if_pos htop, htop]
    · rw [if_neg htop, decide_eq_true (show i < w by omega), Bool.true_and]

theorem cons_pushRight (hw : 0 < w) :
    BitVec.cons (x.getLsbD 0) (pushRight b x) = (BitVec.cons b x).rotateRight 1 := by
  apply BitVec.eq_of_getLsbD_eq
  intro i hi
  rw [getLsbD_rotateRight_of_lt _ hi, Nat.mod_eq_of_lt (by omega)]
  simp only [BitVec.getLsbD_cons, getLsbD_pushRight]
  grind

theorem rotateLeft_zero : x.rotateLeft 0 = x := by
  apply BitVec.eq_of_getLsbD_eq
  intro i hi
  rw [getLsbD_rotateLeft_of_lt x hi, Nat.zero_mod, if_neg (Nat.not_lt_zero i), Nat.sub_zero]

theorem rotateRight_zero : x.rotateRight 0 = x := by
  apply BitVec.eq_of_getLsbD_eq
  intro i hi
  rw [getLsbD_rotateRight_of_lt x hi, Nat.zero_mod, Nat.sub_zero, if_pos hi, Nat.zero_add]

theorem succ_mod (hw : 1 < w) (n : ℕ) : (n + 1) % w = if n % w + 1 = w then 0 else n % w + 1 := by
  have hlt := Nat.mod_lt n (Nat.zero_lt_of_lt hw)
  rw [Nat.add_mod_eq_ite, Nat.mod_eq_of_lt hw]
  split_ifs <;> omega

theorem rotateLeft_succ (hw : 1 < w) (n : ℕ) :
    x.rotateLeft (n + 1) = (x.rotateLeft n).rotateLeft 1 := by
  have hlt := Nat.mod_lt n (Nat.zero_lt_of_lt hw)
  apply BitVec.eq_of_getLsbD_eq
  intro i hi
  rw [getLsbD_rotateLeft_of_lt _ hi, getLsbD_rotateLeft_of_lt _ hi,
    getLsbD_rotateLeft_of_lt x (by rw [Nat.mod_eq_of_lt hw]; split_ifs <;> omega),
    Nat.mod_eq_of_lt hw, succ_mod hw]
  congr 1
  split_ifs <;> omega

theorem rotateRight_succ (hw : 1 < w) (n : ℕ) :
    x.rotateRight (n + 1) = (x.rotateRight n).rotateRight 1 := by
  have hlt := Nat.mod_lt n (Nat.zero_lt_of_lt hw)
  apply BitVec.eq_of_getLsbD_eq
  intro i hi
  rw [getLsbD_rotateRight_of_lt _ hi, getLsbD_rotateRight_of_lt _ hi,
    getLsbD_rotateRight_of_lt x (by rw [Nat.mod_eq_of_lt hw]; split_ifs <;> omega),
    Nat.mod_eq_of_lt hw, succ_mod hw]
  congr 1
  split_ifs <;> omega

/-- Two words shifted left as one. -/
theorem append_shiftLeft (d s : BitVec w) :
    (d ++ s) <<< 1 = d.shiftConcat s.msb ++ s <<< 1 := by
  apply BitVec.eq_of_getLsbD_eq
  intro i hi
  simp only [BitVec.getLsbD_shiftLeft, BitVec.getLsbD_append, BitVec.getLsbD_shiftConcat,
    BitVec.msb_eq_getLsbD_last]
  grind

theorem append_shiftRight (d s : BitVec w) :
    (s ++ d) >>> 1 = s >>> 1 ++ pushRight (s.getLsbD 0) d := by
  apply BitVec.eq_of_getLsbD_eq
  intro i hi
  simp only [BitVec.getLsbD_ushiftRight, BitVec.getLsbD_append, getLsbD_pushRight]
  grind

end Rotations

section Loops

variable {width : BusWidth} (x : BitVec width.bits)

theorem held_shl : held x <<< 1 &&& widthMask width = held (x <<< 1) := by
  rw [← shiftConcat_false x, ← held_left, show ofBool false = 0#32 from rfl, BitVec.or_zero]

theorem held_shr : held x >>> 1 = held (x >>> 1) := by
  rw [← pushRight_false x, ← held_right, show ofBool false = 0#32 from rfl, BitVec.zero_shiftLeft,
    BitVec.or_zero]

theorem one_lt_bits (width : BusWidth) : 1 < width.bits := by
  cases width <;> decide

/-- Turns that each take a word to the next of `F` and its bit `out` into the carry. -/
theorem iterate_shiftStep (op : Fin 8) (F : ℕ → BitVec width.bits) (out : BitVec width.bits → Bool)
    (hstep : ∀ n cf, shiftStep op width (held (F n), cf) = (held (F (n + 1)), out (F n)))
    (hstart : F 0 = x) (n : ℕ) (cf : Bool) :
    (shiftStep op width)^[n + 1] (held x, cf) = (held (F (n + 1)), out (F n)) := by
  induction n with
  | zero => rw [← hstart, Function.iterate_one, hstep]
  | succ n ih => rw [Function.iterate_succ_apply', ih, hstep]

/-- Turns that each take the carry and the word, as one, to the next of `F`. -/
theorem iterate_carryStep (op : Fin 8) (F : ℕ → BitVec (width.bits + 1))
    (hstep : ∀ n y cf, BitVec.cons cf y = F n → ∃ y' cf',
      shiftStep op width (held y, cf) = (held y', cf') ∧ BitVec.cons cf' y' = F (n + 1))
    {cf : Bool} (hstart : F 0 = BitVec.cons cf x) (n : ℕ) :
    ∃ y cf', (shiftStep op width)^[n] (held x, cf) = (held y, cf') ∧ BitVec.cons cf' y = F n := by
  induction n with
  | zero => exact ⟨x, cf, rfl, hstart.symm⟩
  | succ n ih =>
    obtain ⟨y, c, hy, hcons⟩ := ih
    obtain ⟨y', c', hy', hcons'⟩ := hstep n y c hcons
    refine ⟨y', c', ?_, hcons'⟩
    rw [Function.iterate_succ_apply', hy, hy']

variable (n : ℕ) (cf : Bool)

theorem rol_turns : (shiftStep 0 width)^[n + 1] (held x, cf) =
    (held (x.rotateLeft (n + 1)), (x.rotateLeft n).msb) := by
  refine iterate_shiftStep x 0 x.rotateLeft BitVec.msb (fun n cf => ?_) (rotateLeft_zero x) n cf
  rw [rotateLeft_succ x (one_lt_bits width), ← shiftConcat_msb _ (one_lt_bits width), ← held_left,
    ← held_msb]
  rfl

theorem ror_turns : (shiftStep 1 width)^[n + 1] (held x, cf) =
    (held (x.rotateRight (n + 1)), (x.rotateRight n).getLsbD 0) := by
  refine iterate_shiftStep x 1 x.rotateRight (BitVec.getLsbD · 0) (fun n cf => ?_)
    (rotateRight_zero x) n cf
  rw [rotateRight_succ x (one_lt_bits width), ← pushRight_lsb _ (one_lt_bits width), ← held_right,
    ← held_lsb]
  rfl

theorem shl_turns (op : Fin 8) (hop : op = 4 ∨ op = 6) :
    (shiftStep op width)^[n + 1] (held x, cf) = (held (x <<< (n + 1)), (x <<< n).msb) := by
  refine iterate_shiftStep x op (x <<< ·) BitVec.msb (fun n cf => ?_) (BitVec.shiftLeft_zero x) n cf
  rw [BitVec.shiftLeft_add, ← held_shl, ← held_msb]
  rcases hop with rfl | rfl <;> rfl

theorem shr_turns : (shiftStep 5 width)^[n + 1] (held x, cf) =
    (held (x >>> (n + 1)), (x >>> n).getLsbD 0) := by
  refine iterate_shiftStep x 5 (x >>> ·) (BitVec.getLsbD · 0) (fun n cf => ?_)
    (BitVec.ushiftRight_zero x) n cf
  rw [BitVec.shiftRight_add, ← held_shr, ← held_lsb]
  rfl

theorem sar_turns : (shiftStep 7 width)^[n + 1] (held x, cf) =
    (held (x.sshiftRight (n + 1)), (x.sshiftRight n).getLsbD 0) := by
  refine iterate_shiftStep x 7 x.sshiftRight (BitVec.getLsbD · 0) (fun n cf => ?_)
    BitVec.sshiftRight_zero n cf
  rw [BitVec.sshiftRight_add, ← pushRight_msb, ← held_sar, ← held_lsb]
  rfl

theorem rcl_turns : ∃ y cf', (shiftStep 2 width)^[n] (held x, cf) = (held y, cf') ∧
    BitVec.cons cf' y = (BitVec.cons cf x).rotateLeft n := by
  refine iterate_carryStep x 2 (BitVec.cons cf x).rotateLeft (fun n y c h => ?_)
    (rotateLeft_zero _) n
  refine ⟨y.shiftConcat c, y.msb, ?_, ?_⟩
  · rw [← held_left, ← held_msb]
    rfl
  · rw [rotateLeft_succ _ (Nat.lt_succ_of_lt (one_lt_bits width)), ← h,
      cons_shiftConcat y c width.bits_pos]

theorem rcr_turns : ∃ y cf', (shiftStep 3 width)^[n] (held x, cf) = (held y, cf') ∧
    BitVec.cons cf' y = (BitVec.cons cf x).rotateRight n := by
  refine iterate_carryStep x 3 (BitVec.cons cf x).rotateRight (fun n y c h => ?_)
    (rotateRight_zero _) n
  refine ⟨pushRight c y, y.getLsbD 0, ?_, ?_⟩
  · rw [← held_right, ← held_lsb]
    rfl
  · rw [rotateRight_succ _ (Nat.lt_succ_of_lt (one_lt_bits width)), ← h,
      cons_pushRight y c width.bits_pos]

variable (d s : BitVec width.bits)

/-- A turn of a double shift moves both words as one and the bit it moves out to the carry. -/
theorem doubleStep_left :
    ∃ d' s' : BitVec width.bits,
      doubleStep true width (held d, held s, cf) = (held d', held s', (d ++ s).msb) ∧
        d' ++ s' = (d ++ s) <<< 1 := by
  refine ⟨d.shiftConcat s.msb, s <<< 1, ?_, (append_shiftLeft d s).symm⟩
  have hpos := width.bits_pos
  have hmsb : (d ++ s).msb = d.msb := by
    rw [BitVec.msb_append, if_neg (by simpa using hpos.ne')]
  have hin : (held s &&& widthSign width) >>> (width.bits - 1) = ofBool s.msb := by
    apply BitVec.eq_of_getLsbD_eq
    intro i _
    rw [BitVec.getLsbD_ushiftRight, BitVec.getLsbD_and, getLsbD_widthSign, getLsbD_held,
      getLsbD_ofBool, BitVec.msb_eq_getLsbD_last]
    grind
  rw [hmsb, ← held_left, ← held_shl, ← hin, ← held_msb]
  rfl

theorem doubleStep_right :
    ∃ d' s' : BitVec width.bits,
      doubleStep false width (held d, held s, cf) = (held d', held s', (s ++ d).getLsbD 0) ∧
        s' ++ d' = (s ++ d) >>> 1 := by
  refine ⟨pushRight (s.getLsbD 0) d, s >>> 1, ?_, (append_shiftRight d s).symm⟩
  have hlsb : (s ++ d).getLsbD 0 = d.getLsbD 0 := by
    rw [BitVec.getLsbD_append, if_pos width.bits_pos]
  have hin : held s &&& 1 = ofBool (s.getLsbD 0) := by
    apply BitVec.eq_of_getLsbD_eq
    intro i _
    rw [BitVec.getLsbD_and, show (1 : BitVec 32) = ofBool true from rfl, getLsbD_ofBool,
      getLsbD_ofBool, getLsbD_held]
    grind
  rw [hlsb, ← held_right, ← held_shr, ← hin, ← held_lsb]
  rfl

theorem shld_turns : ∃ d' s' : BitVec width.bits,
    (doubleStep true width)^[n + 1] (held d, held s, cf) =
      (held d', held s', ((d ++ s) <<< n).msb) ∧ d' ++ s' = (d ++ s) <<< (n + 1) := by
  induction n with
  | zero => simpa using doubleStep_left cf d s
  | succ n ih =>
    obtain ⟨d', s', hturns, hboth⟩ := ih
    obtain ⟨d'', s'', hstep, hnext⟩ := doubleStep_left ((d ++ s) <<< n).msb d' s'
    refine ⟨d'', s'', ?_, ?_⟩
    · rw [Function.iterate_succ_apply', hturns, hstep, hboth]
    · rw [hnext, hboth, BitVec.shiftLeft_add _ (n + 1)]

theorem shrd_turns : ∃ d' s' : BitVec width.bits,
    (doubleStep false width)^[n + 1] (held d, held s, cf) =
      (held d', held s', ((s ++ d) >>> n).getLsbD 0) ∧ s' ++ d' = (s ++ d) >>> (n + 1) := by
  induction n with
  | zero => simpa using doubleStep_right cf d s
  | succ n ih =>
    obtain ⟨d', s', hturns, hboth⟩ := ih
    obtain ⟨d'', s'', hstep, hnext⟩ := doubleStep_right (((s ++ d) >>> n).getLsbD 0) d' s'
    refine ⟨d'', s'', ?_, ?_⟩
    · rw [Function.iterate_succ_apply', hturns, hstep, hboth]
    · rw [hnext, hboth, BitVec.shiftRight_add _ (n + 1)]

end Loops

namespace Flags

variable {s : Flags}

theorem cf_setShiftResultFlags (cf : Bool) (of : Option Bool) (result : BitVec 32)
    (width : BusWidth) : (s.setShiftResultFlags (some cf) of result width).flag .cf = cf := by
  unfold setShiftResultFlags
  cases hp : s.pendingFlags with
  | none => cases of <;> simp [setSzpLive, setFlagLive, flag, hp]
  | some p => simp [setSzpLive, setFlagLive, flag]

theorem cf_setFlag_cf (cf : Bool) : (s.setFlag .cf cf).flag .cf = cf := by
  unfold setFlag
  cases hp : s.pendingFlags with
  | none => simp [setFlagLive, flag, hp]
  | some p => simp [flag]

theorem cf_setFlag_of (of : Bool) : (s.setFlag .of of).flag .cf = s.flag .cf := by
  unfold setFlag
  cases hp : s.pendingFlags with
  | none => simp [setFlagLive, flag, hp]
  | some p => simp [setFlagLive, materializeFlags, flag, hp]

/-- What the loop of `shift_rotate` leaves is what it returns, and in the carry. -/
theorem shiftRotate_of_turns {op : Fin 8} {value : BitVec 32} {rawCount : BitVec 8}
    {width : BusWidth} {y : BitVec width.bits} {cf : Bool} (hcount : maskedCount rawCount ≠ 0)
    (hturns : (shiftStep op width)^[maskedCount rawCount]
      (held (value.setWidth width.bits), (op == 2 || op == 3) && s.flag .cf) = (held y, cf)) :
    (s.shiftRotate op value rawCount width).1.setWidth width.bits = y ∧
      (s.shiftRotate op value rawCount width).2.flag .cf = cf := by
  unfold shiftRotate
  simp only [if_neg hcount, and_mask, hturns, setWidth_held]
  by_cases hshift : 4 ≤ op
  · simp only [if_pos hshift]
    exact ⟨setWidth_held y, cf_setShiftResultFlags ..⟩
  · simp only [if_neg hshift]
    refine ⟨setWidth_held y, ?_⟩
    split_ifs
    · rw [cf_setFlag_of, cf_setFlag_cf]
    · exact cf_setFlag_cf cf

theorem doubleShift_of_turns {left : Bool} {dest src : BitVec 32} {rawCount : BitVec 8}
    {size : OperandSize} {d' s' : BitVec size.busWidth.bits} {cf : Bool}
    (hcount : maskedCount rawCount ≠ 0) (hle : ¬ size.busWidth.bits < maskedCount rawCount)
    (hturns : (doubleStep left size.busWidth)^[maskedCount rawCount]
      (held (dest.setWidth size.busWidth.bits), held (src.setWidth size.busWidth.bits), false) =
        (held d', held s', cf)) :
    (s.doubleShift left dest src rawCount size).1.setWidth size.busWidth.bits = d' ∧
      (s.doubleShift left dest src rawCount size).2.flag .cf = cf := by
  unfold doubleShift
  simp only [if_neg hcount, if_neg hle, and_mask, hturns, setWidth_held]
  exact ⟨trivial, cf_setShiftResultFlags ..⟩

end Flags

/-- Shifts and rotates are those of the operand's width, RCL and RCR of a word one bit wider with
the carry on top, double shifts of two words in a row; a count that is not zero leaves the last
bit moved out in the carry. -/
theorem shifts_exact :
    (∀ (s : Flags) (value : BitVec 32) (rawCount : BitVec 8) (width : BusWidth),
      let x := value.setWidth width.bits
      let n := maskedCount rawCount
      let result op := (s.shiftRotate op value rawCount width).1.setWidth width.bits
      let carry op := (s.shiftRotate op value rawCount width).2.flag .cf
      result 0 = x.rotateLeft (n % width.bits) ∧ result 1 = x.rotateRight (n % width.bits) ∧
      BitVec.cons (carry 2) (result 2) =
        (BitVec.cons (s.flag .cf) x).rotateLeft (n % (width.bits + 1)) ∧
      BitVec.cons (carry 3) (result 3) =
        (BitVec.cons (s.flag .cf) x).rotateRight (n % (width.bits + 1)) ∧
      result 4 = x <<< n ∧ result 6 = x <<< n ∧ result 5 = x >>> n ∧ result 7 = x.sshiftRight n ∧
      (0 < n → carry 0 = (x.rotateLeft (n - 1)).msb ∧ carry 1 = (x.rotateRight (n - 1)).getLsbD 0 ∧
        carry 4 = (x <<< (n - 1)).msb ∧ carry 6 = (x <<< (n - 1)).msb ∧
        carry 5 = (x >>> (n - 1)).getLsbD 0 ∧ carry 7 = (x.sshiftRight (n - 1)).getLsbD 0)) ∧
    ∀ (s : Flags) (dest src : BitVec 32) (rawCount : BitVec 8) (size : OperandSize),
      let bits := size.busWidth.bits
      let d := dest.setWidth bits
      let x := src.setWidth bits
      let n := maskedCount rawCount
      let result left := (s.doubleShift left dest src rawCount size).1.setWidth bits
      let carry left := (s.doubleShift left dest src rawCount size).2.flag .cf
      n < bits →
        result true = ((d ++ x) <<< n).extractLsb' bits bits ∧
        result false = ((x ++ d) >>> n).setWidth bits ∧
        (0 < n → carry true = ((d ++ x) <<< (n - 1)).msb ∧
          carry false = ((x ++ d) >>> (n - 1)).getLsbD 0) := by
  constructor
  · intro s value rawCount width x n result carry
    rw [BitVec.rotateLeft_mod_eq_rotateLeft, BitVec.rotateRight_mod_eq_rotateRight,
      BitVec.rotateLeft_mod_eq_rotateLeft, BitVec.rotateRight_mod_eq_rotateRight]
    by_cases hn : n = 0
    · have hsame (op : Fin 8) : s.shiftRotate op value rawCount width = (value, s) := if_pos hn
      simp only [result, carry, hsame, hn, rotateLeft_zero, rotateRight_zero, BitVec.shiftLeft_zero,
        BitVec.ushiftRight_zero, BitVec.sshiftRight_zero]
      exact ⟨rfl, rfl, rfl, rfl, rfl, rfl, rfl, rfl, fun h => absurd h (Nat.lt_irrefl 0)⟩
    · obtain ⟨m, hm⟩ := Nat.exists_eq_succ_of_ne_zero hn
      have hturns {op : Fin 8} {y : BitVec width.bits} {cf : Bool}
          (h : (shiftStep op width)^[m + 1] (held x, (op == 2 || op == 3) && s.flag .cf) =
            (held y, cf)) : result op = y ∧ carry op = cf :=
        Flags.shiftRotate_of_turns hn (by rw [show maskedCount rawCount = m + 1 from hm]; exact h)
      have hrol := hturns (rol_turns x m _)
      have hror := hturns (ror_turns x m _)
      have hshl := hturns (shl_turns x m _ 4 (.inl rfl))
      have hshl' := hturns (shl_turns x m _ 6 (.inr rfl))
      have hshr := hturns (shr_turns x m _)
      have hsar := hturns (sar_turns x m _)
      obtain ⟨y, cf, hrcl, hleft⟩ := rcl_turns x (m + 1) (s.flag .cf)
      obtain ⟨z, cf', hrcr, hright⟩ := rcr_turns x (m + 1) (s.flag .cf)
      have hrcl : result 2 = y ∧ carry 2 = cf := hturns hrcl
      have hrcr : result 3 = z ∧ carry 3 = cf' := hturns hrcr
      rw [show n = m + 1 from hm, hrcl.1, hrcl.2, hrcr.1, hrcr.2]
      exact ⟨hrol.1, hror.1, hleft, hright, hshl.1, hshl'.1, hshr.1, hsar.1, fun _ =>
        ⟨hrol.2, hror.2, hshl.2, hshl'.2, hshr.2, hsar.2⟩⟩
  · intro s dest src rawCount size bits d x n result carry hbits
    by_cases hn : n = 0
    · have hsame (left : Bool) : s.doubleShift left dest src rawCount size = (dest, s) := if_pos hn
      simp only [result, hsame, hn, BitVec.shiftLeft_zero, BitVec.ushiftRight_zero]
      exact ⟨BitVec.extractLsb'_append_eq_left.symm, BitVec.setWidth_append_eq_right.symm,
        fun h => absurd h (Nat.lt_irrefl 0)⟩
    · obtain ⟨m, hm⟩ := Nat.exists_eq_succ_of_ne_zero hn
      obtain ⟨d', s', hshld, hleft⟩ := shld_turns m false d x
      obtain ⟨e, t, hshrd, hright⟩ := shrd_turns m false d x
      have hl := Flags.doubleShift_of_turns (s := s) hn (Nat.not_lt.mpr hbits.le)
        (by rw [show maskedCount rawCount = m + 1 from hm]; exact hshld)
      have hr := Flags.doubleShift_of_turns (s := s) hn (Nat.not_lt.mpr hbits.le)
        (by rw [show maskedCount rawCount = m + 1 from hm]; exact hshrd)
      rw [show n = m + 1 from hm, ← hleft, ← hright, BitVec.extractLsb'_append_eq_left,
        BitVec.setWidth_append_eq_right]
      exact ⟨hl.1, hr.1, fun _ => ⟨hl.2, hr.2⟩⟩

/-- SHLD of 0x1234 by four with 0xabcd behind it. -/
theorem shifts_exact_shld : ((⟨fun _ => false, none⟩ : Flags).doubleShift true 0x1234 0xabcd 4
    .word).1.setWidth 16 = 0x234a#16 :=
  (shifts_exact.2 ⟨fun _ => false, none⟩ 0x1234 0xabcd 4 .word (by decide)).1.trans (by decide)

end IzarraVM.Cpu
