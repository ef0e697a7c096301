import IzarraVM.ByteFields

/-! Numbers in lists of bytes, the least significant byte first. -/
namespace IzarraVM

def leNat : List UInt8 → ℕ
  | [] => 0
  | b :: rest => b.toNat + 256 * leNat rest

theorem leBytes_succ (k x : ℕ) : leBytes (k + 1) x = UInt8.ofNat x :: leBytes k (x / 256) := by
  unfold leBytes
  rw [List.range_succ_eq_map, List.map_cons, List.map_map]
  congr 1
  · rw [Nat.pow_zero, Nat.div_one]
  · apply List.map_congr_left
    intro i _
    show UInt8.ofNat (x / 256 ^ (i + 1)) = UInt8.ofNat (x / 256 / 256 ^ i)
    rw [Nat.div_div_eq_div_mul, Nat.pow_succ']

theorem leNat_leBytes (k : ℕ) : ∀ x : ℕ, leNat (leBytes k x) = x % 256 ^ k := by
  induction k with
  | zero =>
    intro x
    rw [Nat.pow_zero, Nat.mod_one]
    rfl
  | succ k ih =>
    intro x
    have hpow : 256 ^ (k + 1) = 256 * 256 ^ k := Nat.pow_succ'
    rw [leBytes_succ, leNat, ih, UInt8.toNat_ofNat', hpow, Nat.mod_mul]

/-- The bytes of the number in some bytes are those bytes. -/
theorem leBytes_leNat (bytes : List UInt8) : leBytes bytes.length (leNat bytes) = bytes := by
  induction bytes with
  | nil => rfl
  | cons b rest ih =>
    have hb : b.toNat < 256 := b.toNat_lt
    have hmod : (b.toNat + 256 * leNat rest) % 2 ^ 8 = b.toNat := by omega
    have hdiv : (b.toNat + 256 * leNat rest) / 256 = leNat rest := by omega
    have hfirst : UInt8.ofNat (b.toNat + 256 * leNat rest) = b := by
      apply UInt8.toNat_inj.mp
      rw [UInt8.toNat_ofNat', hmod]
    rw [List.length_cons, leNat, leBytes_succ, hdiv, ih, hfirst]

theorem leNat_lt (bytes : List UInt8) : leNat bytes < 256 ^ bytes.length := by
  induction bytes with
  | nil => exact Nat.one_pos
  | cons b rest ih =>
    have hb : b.toNat < 256 := b.toNat_lt
    have hpow : 256 ^ (rest.length + 1) = 256 * 256 ^ rest.length := Nat.pow_succ'
    rw [List.length_cons, leNat, hpow]
    omega

end IzarraVM
