import Mathlib

/-! Decoding bytes as UTF-8 with replacement characters, and trimming the end of the text. -/
namespace IzarraVM.LossyUtf8

def replacement : Char := '�'

def isCont (b : UInt8) : Bool := b.toNat/64 = 2

def secondOk (b c : UInt8) : Bool :=
  isCont c && decide
    ((b.toNat = 0xE0 → 0xA0 ≤ c.toNat) ∧ (b.toNat = 0xED → c.toNat ≤ 0x9F) ∧
      (b.toNat = 0xF0 → 0x90 ≤ c.toNat) ∧ (b.toNat = 0xF4 → c.toNat ≤ 0x8F))

def charOf (lead : ℕ) (conts : List UInt8) : Char :=
  Char.ofNat (conts.foldl (fun n c => n*64+c.toNat%64) lead)

def decode2 (b c : UInt8) : Char × ℕ :=
  if isCont c then (charOf (b.toNat%32) [c], 1) else (replacement, 0)

def decode3 (b c d : UInt8) : Char × ℕ :=
  if secondOk b c then
    if isCont d then (charOf (b.toNat%16) [c, d], 2) else (replacement, 1)
  else (replacement, 0)

def decode4 (b c d e : UInt8) : Char × ℕ :=
  if secondOk b c then
    if isCont d then
      if isCont e then (charOf (b.toNat%8) [c, d, e], 3) else (replacement, 2)
    else (replacement, 1)
  else (replacement, 0)

def decodeChar (b : UInt8) (rest : List UInt8) : Char × ℕ :=
  if b.toNat < 0x80 then (Char.ofNat b.toNat, 0)
  else if 0xC2 ≤ b.toNat ∧ b.toNat ≤ 0xDF then decode2 b (rest.getD 0 0)
  else if 0xE0 ≤ b.toNat ∧ b.toNat ≤ 0xEF then decode3 b (rest.getD 0 0) (rest.getD 1 0)
  else if 0xF0 ≤ b.toNat ∧ b.toNat ≤ 0xF4 then
    decode4 b (rest.getD 0 0) (rest.getD 1 0) (rest.getD 2 0)
  else (replacement, 0)

def decodeN : ℕ → List UInt8 → List Char
  | 0, _ => []
  | _+1, [] => []
  | n+1, b :: rest => (decodeChar b rest).1 :: decodeN n (rest.drop (decodeChar b rest).2)

def fromUtf8Lossy (bytes : List UInt8) : List Char := decodeN bytes.length bytes

def isWhitespace (c : Char) : Bool :=
  let n := c.toNat
  (9 ≤ n && n ≤ 13) || n = 0x20 || n = 0x85 || n = 0xA0 || n = 0x1680 ||
    (0x2000 ≤ n && n ≤ 0x200A) || n = 0x2028 || n = 0x2029 || n = 0x202F || n = 0x205F ||
    n = 0x3000

def trimEnd (text : List Char) : List Char := text.rdropWhile isWhitespace

theorem toNat_ofNat {n : ℕ} (h : n.isValidChar) : (Char.ofNat n).toNat = n := by
  rw [Char.ofNat, dif_pos h]
  rfl

theorem replacement_ge : 0x80 ≤ replacement.toNat := by decide

theorem decode2_ge {b : UInt8} (c : UInt8) (hb : 0xC2 ≤ b.toNat ∧ b.toNat ≤ 0xDF) :
    0x80 ≤ (decode2 b c).1.toNat := by
  have hc := Nat.mod_lt c.toNat (by decide : 0 < 64)
  unfold decode2
  split_ifs with hcont
  · simp only [charOf, List.foldl]
    rw [toNat_ofNat (by simp only [Nat.isValidChar]; omega)]
    omega
  · exact replacement_ge

theorem decode3_ge {b : UInt8} (c d : UInt8) (hb : 0xE0 ≤ b.toNat ∧ b.toNat ≤ 0xEF) :
    0x80 ≤ (decode3 b c d).1.toNat := by
  have hd := Nat.mod_lt d.toNat (by decide : 0 < 64)
  have hc := c.toNat_lt
  unfold decode3
  split_ifs with hsecond hcont
  · simp only [secondOk, isCont, Bool.and_eq_true, decide_eq_true_eq] at hsecond
    obtain ⟨hc2, hE0, hED, -, -⟩ := hsecond
    simp only [charOf, List.foldl]
    rw [toNat_ofNat (by simp only [Nat.isValidChar]; omega)]
    omega
  · exact replacement_ge
  · exact replacement_ge

theorem decode4_ge {b : UInt8} (c d e : UInt8) (hb : 0xF0 ≤ b.toNat ∧ b.toNat ≤ 0xF4) :
    0x80 ≤ (decode4 b c d e).1.toNat := by
  have hd := Nat.mod_lt d.toNat (by decide : 0 < 64)
  have he := Nat.mod_lt e.toNat (by decide : 0 < 64)
  have hc := c.toNat_lt
  unfold decode4
  split_ifs with hsecond hcont hcont'
  · simp only [secondOk, isCont, Bool.and_eq_true, decide_eq_true_eq] at hsecond
    obtain ⟨hc2, -, -, hF0, hF4⟩ := hsecond
    simp only [charOf, List.foldl]
    rw [toNat_ofNat (by simp only [Nat.isValidChar]; omega)]
    omega
  · exact replacement_ge
  · exact replacement_ge
  · exact replacement_ge

/-- A decoded ASCII character is the byte it was decoded from: longer sequences
and the replacement character lie above. -/
theorem decodeChar_ascii (b : UInt8) (rest : List UInt8)
    (h : (decodeChar b rest).1.toNat < 0x80) : (decodeChar b rest).1.toNat = b.toNat := by
  unfold decodeChar at h ⊢
  split_ifs at h ⊢ with h1 h2 h3 h4
  · exact toNat_ofNat (Or.inl (by omega))
  · exact absurd h (Nat.not_lt.mpr (decode2_ge _ h2))
  · exact absurd h (Nat.not_lt.mpr (decode3_ge _ _ h3))
  · exact absurd h (Nat.not_lt.mpr (decode4_ge _ _ _ h4))
  · exact absurd h (Nat.not_lt.mpr replacement_ge)

theorem exists_byte_of_mem_decodeN {n : ℕ} {bytes : List UInt8} {x : Char}
    (hx : x ∈ decodeN n bytes) (hascii : x.toNat < 0x80) : ∃ b ∈ bytes, x.toNat = b.toNat := by
  induction n generalizing bytes with
  | zero => cases hx
  | succ n ih =>
    cases bytes with
    | nil => cases hx
    | cons b rest =>
      rcases List.mem_cons.mp hx with rfl | hx
      · exact ⟨b, List.mem_cons_self, decodeChar_ascii b rest hascii⟩
      · obtain ⟨b', hb', hxb⟩ := ih hx
        exact ⟨b', List.mem_cons_of_mem _ (List.mem_of_mem_drop hb'), hxb⟩

/-- Every ASCII character of a decoded text is one of the bytes. -/
theorem exists_byte_of_mem {bytes : List UInt8} {x : Char} (hx : x ∈ fromUtf8Lossy bytes)
    (hascii : x.toNat < 0x80) : ∃ b ∈ bytes, x.toNat = b.toNat :=
  exists_byte_of_mem_decodeN hx hascii

theorem mem_of_mem_trimEnd {text : List Char} {x : Char} (hx : x ∈ trimEnd text) : x ∈ text :=
  (List.rdropWhile_prefix isWhitespace text).subset hx

end IzarraVM.LossyUtf8
