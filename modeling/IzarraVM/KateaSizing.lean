import IzarraVM.KateaDemand

/-! When the geometry loop ends: a fixed point modulo 2^32 inside, cutoffs outside. -/
namespace IzarraVM.Katea
open Loop

variable {demandAt : ℕ → ℕ} {spc : ℕ}

def fatSectorsFor (count : ℕ) : ℕ := (count+129)/128

def partitionSectors (demandAt : ℕ → ℕ) (spc : ℕ) : ℕ :=
  reservedSectors+numFats*fatSectorsFor (countOfClusters demandAt spc)
    +countOfClusters demandAt spc*spc

def IsBand (spc : ℕ) : Prop := spc = 1 ∨ spc = 8 ∨ spc = 16 ∨ spc = 32 ∨ spc = 64

theorem refineFatsz_eq (dataSectors spc x : ℕ) :
    refineFatsz dataSectors spc x = ((dataSectors+2*x+130*spc+1)%2^32)/(128*spc+2) := by
  have hsum : ((32+2*x+dataSectors)%2^32+2^32-32)%2^32+(2*spc+(128*spc+2)-1) ≡
      dataSectors+2*x+130*spc+1 [MOD 2^32] := by
    unfold Nat.ModEq
    omega
  exact congrArg (·/(128*spc+2)) hsum

theorem fatSizeSectors_start (dataSectors spc : ℕ) :
    fatSizeSectors (wrap32 (reservedSectors+dataSectors)) spc = refineFatsz dataSectors spc 0 := by
  simp only [refineFatsz, Nat.mul_zero, Nat.add_zero]

/-- While the sums stay below 2^32 the inner loop leaves with the exact FAT size. -/
theorem run_refineFatsz_exact (hs : IsBand spc) {count : ℕ}
    (hfit : count*spc+130*spc+1+2*fatSectorsFor count < 2^32) :
    ∃ n, run (fixedBody (refineFatsz (count*spc) spc)) n (refineFatsz (count*spc) spc 0) =
      some (fatSectorsFor count) := by
  have heq (x : ℕ) (hx : x ≤ fatSectorsFor count) : refineFatsz (count*spc) spc x =
      (count*spc+2*x+130*spc+1)/(128*spc+2) := by
    rw [refineFatsz_eq, Nat.mod_eq_of_lt (by omega)]
  have hmono (x y : ℕ) (hxy : x ≤ y) (hy : y ≤ fatSectorsFor count) :
      refineFatsz (count*spc) spc x ≤ refineFatsz (count*spc) spc y := by
    rw [heq x (hxy.trans hy), heq y hy]
    exact Nat.div_le_div_right (by omega)
  have hbound : refineFatsz (count*spc) spc (fatSectorsFor count) ≤ fatSectorsFor count := by
    rw [heq _ le_rfl]
    unfold fatSectorsFor
    rcases hs with rfl | rfl | rfl | rfl | rfl <;> omega
  have hstart : refineFatsz (count*spc) spc 0 ≤ fatSectorsFor count :=
    (hmono 0 _ (Nat.zero_le _) le_rfl).trans hbound
  obtain ⟨y, hrun, hy, hyb⟩ := run_fixedBody_climbs hbound hmono _ hstart
    (hmono 0 _ (Nat.zero_le _) hstart)
  -- a fixed point holds an entry for every cluster, so it is not below the exact size
  have hge : fatSectorsFor count ≤ y := by
    rw [heq y hyb] at hy
    unfold fatSectorsFor
    rcases hs with rfl | rfl | rfl | rfl | rfl <;> omega
  exact ⟨_, hrun.trans (congrArg some (le_antisymm hyb hge))⟩

def FatSumWraps (demandAt : ℕ → ℕ) (spc : ℕ) : Prop :=
  countOfClusters demandAt spc*spc+130*spc+1 < 2^32 ∧
    2^32 ≤ countOfClusters demandAt spc*spc+130*spc+1
      +2*fatSectorsFor (countOfClusters demandAt spc)

instance : Decidable (FatSumWraps demandAt spc) := inferInstanceAs (Decidable (_ ∧ _))

/-- Then the inner loop has no fixed point: an estimate below the wrap is too
small for the data, and one above it is sent back below. -/
theorem refineFatsz_ne (hs : IsBand spc) (hw : FatSumWraps demandAt spc) (y : ℕ) :
    refineFatsz (countOfClusters demandAt spc*spc) spc y ≠ y := by
  intro hy
  rw [refineFatsz_eq] at hy
  obtain ⟨hlo, hhi⟩ := hw
  generalize countOfClusters demandAt spc = count at hy hlo hhi
  unfold fatSectorsFor at hhi
  rcases lt_or_ge (count*spc+2*y+130*spc+1) (2^32) with hsum | hsum
  · rw [Nat.mod_eq_of_lt hsum] at hy
    rcases hs with rfl | rfl | rfl | rfl | rfl <;> omega
  · have hmod : (count*spc+2*y+130*spc+1)%2^32 ≤ count*spc+2*y+130*spc+1-2^32 := by
      rw [Nat.mod_eq_sub_mod hsum]
      exact Nat.mod_le _ _
    have hle : (128*spc+2)*y ≤ (count*spc+2*y+130*spc+1)%2^32 := by
      rw [Nat.mul_comm]
      exact (Nat.le_div_iff_mul_le (by omega)).mp hy.ge
    rw [Nat.add_mul] at hle
    omega

/-- A data region that alone reaches 2^32 leaves the inner loop with a FAT of no
or one sector. -/
theorem run_refineFatsz_wrapped (hs : IsBand spc) {count : ℕ} (hdata : count*spc < 2^32)
    (hwrap : 2^32 ≤ count*spc+130*spc+1) :
    ∃ n f, f ≤ 1 ∧
      run (fixedBody (refineFatsz (count*spc) spc)) n (refineFatsz (count*spc) spc 0) = some f := by
  have hstart : refineFatsz (count*spc) spc 0 ≤ 1 := by
    rw [refineFatsz_eq]
    rcases hs with rfl | rfl | rfl | rfl | rfl <;> omega
  have hmono (x y : ℕ) (hxy : x ≤ y) (hy : y ≤ 1) :
      refineFatsz (count*spc) spc x ≤ refineFatsz (count*spc) spc y := by
    rw [refineFatsz_eq, refineFatsz_eq]
    rcases hs with rfl | rfl | rfl | rfl | rfl <;> omega
  have hbound : refineFatsz (count*spc) spc 1 ≤ 1 := by
    rw [refineFatsz_eq]
    rcases hs with rfl | rfl | rfl | rfl | rfl <;> omega
  obtain ⟨y, hrun, -, hy⟩ := run_fixedBody_climbs hbound hmono _ hstart
    (hmono 0 _ (Nat.zero_le _) hstart)
  exact ⟨_, y, hy, hrun⟩

def PassSettles (demandAt : ℕ → ℕ) (spc : ℕ) (p : Pass ℕ (Except String Geometry)) : Prop :=
  ∃ n, ∀ fuel, n ≤ fuel → geometryPass demandAt fuel spc = some p

variable {p : Pass ℕ (Except String Geometry)}

theorem geometryPass_over (h : OverBand demandAt spc) (fuel : ℕ) :
    geometryPass demandAt fuel spc = some (climb spc) := by
  simp only [geometryPass, h, ↓reduceIte]

theorem geometryPass_of_run (h : ¬ OverBand demandAt spc) {fuel fatsz : ℕ}
    (hrun : run (fixedBody (refineFatsz (countOfClusters demandAt spc*spc) spc)) fuel
      (refineFatsz (countOfClusters demandAt spc*spc) spc 0) = some fatsz) :
    geometryPass demandAt fuel spc = closePass demandAt spc fatsz := by
  simp only [geometryPass, h, ↓reduceIte, fatSizeSectors_start, hrun]

theorem geometryPass_mono {n m : ℕ} (hnm : n ≤ m) (h : geometryPass demandAt n spc = some p) :
    geometryPass demandAt m spc = some p := by
  by_cases hover : OverBand demandAt spc
  · rwa [geometryPass_over hover] at h ⊢
  · simp only [geometryPass, hover, ↓reduceIte] at h
    split at h
    · cases h
    · next fatsz hrun =>
      rw [fatSizeSectors_start] at hrun
      rw [geometryPass_of_run hover (run_mono hnm hrun), h]

theorem geometryPass_none_or (h : PassSettles demandAt spc p) (fuel : ℕ) :
    geometryPass demandAt fuel spc = none ∨ geometryPass demandAt fuel spc = some p := by
  obtain ⟨n, hn⟩ := h
  cases hq : geometryPass demandAt fuel spc with
  | none => exact Or.inl rfl
  | some q =>
    have hmax := geometryPass_mono (le_max_right n fuel) hq
    rw [hn _ (le_max_left n fuel)] at hmax
    exact Or.inr hmax.symm

theorem settles_over (h : OverBand demandAt spc) : PassSettles demandAt spc (climb spc) :=
  ⟨0, fun fuel _ => geometryPass_over h fuel⟩

theorem settles_of_run (h : ¬ OverBand demandAt spc) {n fatsz : ℕ}
    (hrun : run (fixedBody (refineFatsz (countOfClusters demandAt spc*spc) spc)) n
      (refineFatsz (countOfClusters demandAt spc*spc) spc 0) = some fatsz)
    (hclose : closePass demandAt spc fatsz = some p) : PassSettles demandAt spc p :=
  ⟨n, fun _ hfuel => (geometryPass_of_run h (run_mono hfuel hrun)).trans hclose⟩

theorem geometryPass_wraps (hs : IsBand spc) (h : ¬ OverBand demandAt spc)
    (hw : FatSumWraps demandAt spc) (fuel : ℕ) : geometryPass demandAt fuel spc = none := by
  simp only [geometryPass, h, ↓reduceIte, run_fixedBody_none (refineFatsz_ne hs hw)]

def ReturnsFrom (demandAt : ℕ → ℕ) (spc : ℕ) : Prop :=
  ∃ n r, ∀ fuel m, n ≤ fuel → n ≤ m → run (geometryPass demandAt fuel) m spc = some r

theorem ReturnsFrom.of_done {r : Except String Geometry}
    (h : PassSettles demandAt spc (.done r)) : ReturnsFrom demandAt spc := by
  obtain ⟨n, hn⟩ := h
  refine ⟨n+1, r, fun fuel m hfuel hm => run_mono hm ?_⟩
  exact run_done (hn fuel (by omega))

theorem ReturnsFrom.of_next {t : ℕ} (h : PassSettles demandAt spc (.next t))
    (ht : ReturnsFrom demandAt t) : ReturnsFrom demandAt spc := by
  obtain ⟨n, hn⟩ := h
  obtain ⟨k, r, hk⟩ := ht
  refine ⟨n+k+1, r, fun fuel m hfuel hm => run_mono hm ?_⟩
  rw [run_next (hn fuel (by omega))]
  exact hk fuel (n+k) (by omega) (by omega)

theorem geometryReturns_of_returnsFrom (h : ReturnsFrom demandAt 1) :
    GeometryReturns demandAt := by
  obtain ⟨n, r, hn⟩ := h
  exact ⟨n, r, hn n n le_rfl le_rfl⟩

/-- Bands the passes never lead out of, and never return from, keep the loop going for ever. -/
theorem not_geometryReturns_of_closed (P : ℕ → Prop) (h1 : P 1)
    (hP : ∀ s, P s → (∀ fuel, geometryPass demandAt fuel s = none) ∨
      ∃ t, PassSettles demandAt s (.next t) ∧ P t) : ¬ GeometryReturns demandAt := by
  rintro ⟨fuel, r, hr⟩
  have hnone : run (geometryPass demandAt fuel) fuel 1 = none := by
    refine run_eq_none_of_closed P (fun s hs => ?_) fuel 1 h1
    rcases hP s hs with hstuck | ⟨t, ht, hPt⟩
    · exact Or.inl (hstuck fuel)
    · exact (geometryPass_none_or ht fuel).imp_right fun hnext => ⟨t, hnext, hPt⟩
  rw [fat32GeometryFor, hnone] at hr
  cases hr

end IzarraVM.Katea
