import IzarraVM.Ata

/-! The address and count registers as a transfer moves over them. -/
namespace IzarraVM.Ata.TaskFile

theorem or_and (a b m : UInt8) : (a ||| b) &&& m = (a &&& m) ||| (b &&& m) := by
  apply UInt8.toNat_inj.mp
  simp only [UInt8.toNat_and, UInt8.toNat_or]
  exact Nat.and_or_distrib_right ..

/-- A new low nibble leaves the upper four bits of the register, whichever is tested. -/
theorem and_of_low {x low m : UInt8} (hm : 0xf0 &&& m = m) (hlow : low &&& 0xf0 = 0) :
    ((x &&& 0xf0) ||| low) &&& m = x &&& m := by
  calc ((x &&& 0xf0) ||| low) &&& m
      = (x &&& (0xf0 &&& m)) ||| ((low &&& 0xf0) &&& m) := by
        rw [or_and, UInt8.and_assoc, UInt8.and_assoc, hm]
    _ = x &&& m := by rw [hm, hlow, UInt8.zero_and, UInt8.or_zero]

/-- The low nibble of the register is the one that was stored. -/
theorem low_of_or {x low : UInt8} (hlow : low &&& 0xf0 = 0) :
    ((x &&& 0xf0) ||| low) &&& 0x0f = low := by
  have hpart : low &&& 0x0f = low := by
    calc low &&& 0x0f = (low &&& 0x0f) ||| (low &&& 0xf0) := by rw [hlow, UInt8.or_zero]
      _ = low &&& (0x0f ||| 0xf0) := by
        rw [UInt8.and_comm low, UInt8.and_comm low, ← or_and, UInt8.and_comm]
      _ = low := by
        rw [show (0x0f ||| 0xf0 : UInt8) = -1 from by decide, UInt8.and_neg_one]
  rw [or_and, UInt8.and_assoc, show (0xf0 &&& 0x0f : UInt8) = 0 from by decide, UInt8.and_zero,
    UInt8.zero_or, hpart]

theorem low_linear (lba : ℕ) : (UInt8.ofNat (lba / 2 ^ 24) &&& 0x0f) &&& 0xf0 = 0 := by
  rw [UInt8.and_assoc, show (0x0f &&& 0xf0 : UInt8) = 0 from by decide, UInt8.and_zero]

theorem head_lt (lba : ℕ) : lba % (heads * sectorsPerTrack) / sectorsPerTrack < 16 := by
  unfold heads sectorsPerTrack
  omega

theorem low_of_lt {n : ℕ} (h : n < 16) : UInt8.ofNat n &&& 0xf0 = 0 := by
  interval_cases n <;> decide

variable (t : TaskFile)

/-- The bits of the drive register that no address reaches. -/
theorem driveHead_setAddress_and (lba : ℕ) {m : UInt8} (hm : 0xf0 &&& m = m) :
    (t.setAddress lba).driveHead &&& m = t.driveHead &&& m := by
  unfold setAddress
  split
  · exact and_of_low hm (low_linear lba)
  · exact and_of_low hm (low_of_lt (head_lt lba))

@[simp] theorem lbaMode_setAddress (lba : ℕ) :
    (t.setAddress lba).lbaMode = t.lbaMode := by
  rw [lbaMode, lbaMode, driveHead_setAddress_and t lba (by decide)]

@[simp] theorem setAddress_count (lba : ℕ) :
    (t.setAddress lba).features = t.features ∧ (t.setAddress lba).sectorCount = t.sectorCount := by
  unfold setAddress
  split <;> exact ⟨rfl, rfl⟩

/-- What an address is written over: the features, the count, and the upper half of the
drive register. -/
theorem setAddress_congr {t u : TaskFile} (hfeatures : u.features = t.features)
    (hcount : u.sectorCount = t.sectorCount) (hmode : u.lbaMode = t.lbaMode)
    (hhigh : u.driveHead &&& 0xf0 = t.driveHead &&& 0xf0) (lba : ℕ) :
    u.setAddress lba = t.setAddress lba := by
  unfold setAddress
  rw [hmode, hfeatures, hcount, hhigh]

/-- The address is written whole. -/
theorem setAddress_setAddress (a b : ℕ) :
    (t.setAddress a).setAddress b = t.setAddress b := by
  apply setAddress_congr
  · exact (setAddress_count t a).1
  · exact (setAddress_count t a).2
  · exact lbaMode_setAddress t a
  · exact driveHead_setAddress_and t a (by decide)

/-- The count stands beside the address. -/
theorem setAddress_sectorCount (lba : ℕ) (count : UInt8) :
    { t.setAddress lba with sectorCount := count } =
      { t with sectorCount := count }.setAddress lba := by
  unfold setAddress
  have hmode : lbaMode { t with sectorCount := count } = t.lbaMode := rfl
  rw [hmode]
  split <;> rfl

def passed (start n : ℕ) : TaskFile :=
  if n = 0 then t
  else { t with sectorCount := t.sectorCount - UInt8.ofNat n }.setAddress (start + n)

theorem passed_succ (start n : ℕ) :
    { t.passed start n with sectorCount := (t.passed start n).sectorCount - 1 }.setAddress
        (start + n + 1) = t.passed start (n + 1) := by
  have hcount : t.sectorCount - UInt8.ofNat n - 1 = t.sectorCount - UInt8.ofNat (n + 1) := by
    rw [UInt8.ofNat_add, UInt8.sub_eq_add_neg, UInt8.sub_eq_add_neg, UInt8.sub_eq_add_neg,
      UInt8.add_assoc, UInt8.neg_add, UInt8.sub_eq_add_neg]
    rfl
  unfold passed
  rw [if_neg (Nat.succ_ne_zero n)]
  split
  · rename_i hzero
    subst hzero
    rw [← hcount, show t.sectorCount - UInt8.ofNat 0 = t.sectorCount from UInt8.sub_zero _]
  · rw [setAddress_sectorCount, setAddress_setAddress, Nat.add_assoc]
    congr 2
    rw [(setAddress_count _ _).2, hcount]

end IzarraVM.Ata.TaskFile
