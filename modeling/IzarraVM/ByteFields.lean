import Mathlib

/-! Little-endian fields in fixed-size blocks of bytes. -/
namespace IzarraVM

variable {n : ℕ}

def byteAt (v : Fin n → UInt8) (i : ℕ) : UInt8 := if h : i < n then v ⟨i, h⟩ else 0

def putBytes (v : Fin n → UInt8) (off : ℕ) (bytes : List UInt8) : Fin n → UInt8 :=
  fun i => if off ≤ i.val then (bytes[i.val-off]?).getD (v i) else v i

def leBytes (k x : ℕ) : List UInt8 := (List.range k).map fun i => UInt8.ofNat (x/256^i)

def leAt (v : Fin n → UInt8) (off : ℕ) : ℕ → ℕ
  | 0 => 0
  | k+1 => leAt v off k+(byteAt v (off+k)).toNat*256^k

abbrev le16At (v : Fin n → UInt8) (off : ℕ) : ℕ := leAt v off 2

abbrev le32At (v : Fin n → UInt8) (off : ℕ) : ℕ := leAt v off 4

@[simp] theorem leBytes_length (k x : ℕ) : (leBytes k x).length = k := by
  simp only [leBytes, List.length_map, List.length_range]

theorem byteAt_putBytes (v : Fin n → UInt8) {off i : ℕ} (bytes : List UInt8)
    (hi : i < bytes.length) (hn : off+i < n) :
    byteAt (putBytes v off bytes) (off+i) = bytes[i] := by
  unfold byteAt putBytes
  rw [dif_pos hn, if_pos (by simp only; omega)]
  simp only [Nat.add_sub_cancel_left, List.getElem?_eq_getElem hi, Option.getD_some]

theorem leAt_congr {m : ℕ} {v : Fin n → UInt8} {w : Fin m → UInt8} {off off' : ℕ} (k : ℕ)
    (h : ∀ i < k, byteAt v (off+i) = byteAt w (off'+i)) : leAt v off k = leAt w off' k := by
  induction k with
  | zero => rfl
  | succ k ih =>
    rw [leAt, leAt, ih fun i hi => h i (by omega), h k (by omega)]

/-- A field read back is the number that was stored. -/
theorem leAt_putBytes (v : Fin n → UInt8) {off : ℕ} (k x : ℕ) (hn : off+k ≤ n) :
    leAt (putBytes v off (leBytes k x)) off k = x%256^k := by
  suffices h : ∀ j ≤ k, leAt (putBytes v off (leBytes k x)) off j = x%256^j from h k le_rfl
  intro j hj
  induction j with
  | zero => rw [leAt, Nat.pow_zero, Nat.mod_one]
  | succ j ih =>
    have hlen : j < (leBytes k x).length := by
      rw [leBytes_length]
      omega
    have hbyte : (byteAt (putBytes v off (leBytes k x)) (off+j)).toNat = x/256^j%256 := by
      rw [byteAt_putBytes v _ hlen (by omega)]
      simp only [leBytes, List.getElem_map, List.getElem_range, UInt8.toNat_ofNat']
    rw [leAt, ih (by omega), hbyte, Nat.pow_succ, Nat.mod_mul, Nat.mul_comm (256^j)]

end IzarraVM
