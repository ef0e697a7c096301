import Mathlib

/-! The saturating and checked arithmetic of the machine's word sizes. -/
namespace IzarraVM

variable (a b : ℕ)

def saturatingAdd64 : ℕ := min (a + b) (2 ^ 64 - 1)
def saturatingMul64 : ℕ := min (a * b) (2 ^ 64 - 1)
def saturatingAdd32 : ℕ := min (a + b) (2 ^ 32 - 1)
def checkedAdd32 : Option ℕ := if a + b < 2 ^ 32 then some (a + b) else none
def checkedMul32 : Option ℕ := if a * b < 2 ^ 32 then some (a * b) else none
def checkedAdd64 : Option ℕ := if a + b < 2 ^ 64 then some (a + b) else none
def checkedMul64 : Option ℕ := if a * b < 2 ^ 64 then some (a * b) else none
def checkedMul128 : Option ℕ := if a * b < 2 ^ 128 then some (a * b) else none

def saturatingU64 (value : ℕ) : ℕ := min value (2 ^ 64 - 1)

theorem saturatingU64_eq {value : ℕ} (h : value < 2 ^ 64) : saturatingU64 value = value :=
  Nat.min_eq_left (by omega)

theorem saturatingAdd64_eq {a b : ℕ} (h : a + b < 2 ^ 64) : saturatingAdd64 a b = a + b :=
  Nat.min_eq_left (by omega)

theorem saturatingMul64_eq {a b : ℕ} (h : a * b < 2 ^ 64) : saturatingMul64 a b = a * b :=
  Nat.min_eq_left (by omega)

theorem saturatingAdd32_eq {a b : ℕ} (h : a + b < 2 ^ 32) : saturatingAdd32 a b = a + b :=
  Nat.min_eq_left (by omega)

theorem saturatingAdd64_pos {b : ℕ} (a : ℕ) (h : 0 < b) : 0 < saturatingAdd64 a b := by
  unfold saturatingAdd64
  omega

end IzarraVM
