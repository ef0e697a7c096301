import Mathlib

/-! Guest memory: a flat array of bytes whose accesses are bounds-checked. -/
namespace IzarraVM

structure Memory where
  data : List UInt8
  deriving DecidableEq, Repr

namespace Memory

variable (m : Memory)

def len : ℕ := m.data.length

def readU8 (address : ℕ) : Option UInt8 := m.data[address]?

def writeU8 (address : ℕ) (value : UInt8) : Option Memory :=
  if address < m.len then some ⟨m.data.set address value⟩ else none

def readU32 (address : ℕ) : Option ℕ := do
  let b0 ← m.readU8 address
  let b1 ← m.readU8 (address + 1)
  let b2 ← m.readU8 (address + 2)
  let b3 ← m.readU8 (address + 3)
  pure (b0.toNat + 2 ^ 8 * b1.toNat + 2 ^ 16 * b2.toNat + 2 ^ 24 * b3.toNat)

variable {m}

variable {address : ℕ}

theorem readU8_isSome : (m.readU8 address).isSome ↔ address < m.len := by
  simp [readU8, len]

theorem writeU8_eq (h : address < m.len) (value : UInt8) :
    m.writeU8 address value = some ⟨m.data.set address value⟩ := if_pos h

theorem writeU8_len {value : UInt8} {m' : Memory}
    (h : m.writeU8 address value = some m') : m'.len = m.len := by
  unfold writeU8 at h
  split_ifs at h
  cases h
  exact List.length_set

theorem writeU8_lt {value : UInt8} {m' : Memory}
    (h : m.writeU8 address value = some m') : address < m.len := by
  unfold writeU8 at h
  split_ifs at h with hin
  exact hin

end Memory

end IzarraVM
