import IzarraVM.RatePhase

/-! Clock rates against the fixed machine timeline (`clock.rs`): roundings, and their adjoints. -/
namespace IzarraVM.Timeline

structure ClockRate where
  numeratorHz : ℕ
  denominator : ℕ
  numerator_pos : 0 < numeratorHz
  denominator_pos : 0 < denominator
  numerator_lt : numeratorHz < 2 ^ 64
  denominator_lt : denominator < 2 ^ 64

namespace ClockRate

variable (r : ClockRate) (clocks masterTicks : ℕ)

def perClock : ℕ := masterClockHz * r.denominator

def masterTicksPerClock : Option ℕ :=
  if ¬ r.numeratorHz ∣ r.perClock then none
  else if 2 ^ 64 - 1 < r.perClock / r.numeratorHz then none
  else some (r.perClock / r.numeratorHz)

def masterTicksForClocksFloor : ℕ :=
  match checkedMul128 r.perClock clocks with
  | some scaled => saturatingU64 (scaled / r.numeratorHz)
  | none => 2 ^ 64 - 1

def masterTicksForClocksCeil : ℕ :=
  match checkedMul128 r.perClock clocks with
  | some scaled => saturatingU64 (scaled ⌈/⌉ r.numeratorHz)
  | none => 2 ^ 64 - 1

def clocksForMasterTicksFloor : ℕ := saturatingU64 (masterTicks * r.numeratorHz / r.perClock)

def clocksForMasterTicksCeil : ℕ := saturatingU64 ((masterTicks * r.numeratorHz) ⌈/⌉ r.perClock)

structure Unsaturated : Prop where
  product : r.perClock * clocks < 2 ^ 128
  ticks : (r.perClock * clocks) ⌈/⌉ r.numeratorHz < 2 ^ 64
  clocks : (masterTicks * r.numeratorHz) ⌈/⌉ r.perClock < 2 ^ 64

variable {r clocks masterTicks}

theorem perClock_pos : 0 < r.perClock := Nat.mul_pos (by decide) r.denominator_pos

namespace Unsaturated

variable (h : r.Unsaturated clocks masterTicks)
include h

theorem ticksFloor_eq :
    r.masterTicksForClocksFloor clocks = r.perClock * clocks / r.numeratorHz := by
  have hle := floorDiv_le_ceilDiv (a := r.numeratorHz) (b := r.perClock * clocks)
  rw [masterTicksForClocksFloor, checkedMul128, if_pos h.product]
  exact saturatingU64_eq (Nat.lt_of_le_of_lt hle h.ticks)

theorem ticksCeil_eq :
    r.masterTicksForClocksCeil clocks = (r.perClock * clocks) ⌈/⌉ r.numeratorHz := by
  rw [masterTicksForClocksCeil, checkedMul128, if_pos h.product]
  exact saturatingU64_eq h.ticks

theorem clocksFloor_eq :
    r.clocksForMasterTicksFloor masterTicks = masterTicks * r.numeratorHz / r.perClock := by
  have hle := floorDiv_le_ceilDiv (a := r.perClock) (b := masterTicks * r.numeratorHz)
  exact saturatingU64_eq (Nat.lt_of_le_of_lt hle h.clocks)

theorem clocksCeil_eq :
    r.clocksForMasterTicksCeil masterTicks = (masterTicks * r.numeratorHz) ⌈/⌉ r.perClock :=
  saturatingU64_eq h.clocks

end Unsaturated

/-- Where a clock is a whole number of ticks the rounding has nothing to do. -/
theorem perClock_mul_of_ticks {k : ℕ} (hk : r.masterTicksPerClock = some k) (clocks : ℕ) :
    r.perClock * clocks = r.numeratorHz * (clocks * k) := by
  unfold masterTicksPerClock at hk
  split_ifs at hk with hdvd
  cases hk
  calc r.perClock * clocks
      = r.numeratorHz * (r.perClock / r.numeratorHz) * clocks := by
        rw [Nat.mul_div_cancel' hdvd]
    _ = r.numeratorHz * (clocks * (r.perClock / r.numeratorHz)) := by
        rw [Nat.mul_assoc, Nat.mul_comm clocks]

/-- A tick count is at or past a clock's tick exactly when that many clocks are in it, and dually. -/
theorem conversions_adjoint (h : r.Unsaturated clocks masterTicks) :
    (r.masterTicksForClocksCeil clocks ≤ masterTicks ↔
        clocks ≤ r.clocksForMasterTicksFloor masterTicks) ∧
      (masterTicks ≤ r.masterTicksForClocksFloor clocks ↔
        r.clocksForMasterTicksCeil masterTicks ≤ clocks) ∧
      ∀ k, r.masterTicksPerClock = some k →
        r.masterTicksForClocksFloor clocks = clocks * k ∧
          r.masterTicksForClocksCeil clocks = clocks * k := by
  rw [h.ticksFloor_eq, h.ticksCeil_eq, h.clocksFloor_eq, h.clocksCeil_eq]
  refine ⟨?_, ?_, fun k hk => ?_⟩
  · rw [ceilDiv_le_iff_le_mul r.numerator_pos, Nat.le_div_iff_mul_le r.perClock_pos,
      Nat.mul_comm clocks, Nat.mul_comm masterTicks]
  · rw [ceilDiv_le_iff_le_mul r.perClock_pos, Nat.le_div_iff_mul_le r.numerator_pos]
  · rw [perClock_mul_of_ticks hk]
    exact ⟨Nat.mul_div_cancel_left _ r.numerator_pos, smul_ceilDiv r.numerator_pos _⟩

def slowest : ClockRate := ⟨22000000, 3, by decide, Nat.succ_pos 2, by decide, by decide⟩

theorem slowest_conversions :
    (slowest.masterTicksForClocksCeil 5 ≤ 3735 ↔ 5 ≤ slowest.clocksForMasterTicksFloor 3735) ∧
      slowest.masterTicksForClocksFloor 5 = 5 * 747 := by
  have hfits : slowest.Unsaturated 5 3735 := ⟨by decide, by decide, by decide⟩
  obtain ⟨hceil, -, hticks⟩ := conversions_adjoint hfits
  exact ⟨hceil, (hticks 747 (by decide)).1⟩

end ClockRate

end IzarraVM.Timeline
