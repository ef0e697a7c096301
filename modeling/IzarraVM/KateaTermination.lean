import IzarraVM.KateaBands

/-! Which host trees the geometry loop returns for. -/
namespace IzarraVM.Katea

variable {demandAt : ℕ → ℕ}

structure ScaledCounts (c1 c8 c16 c32 c64 : ℕ) : Prop where
  floor1 : 532481 ≤ c1
  floor8 : 66561 ≤ c8
  floor16 : 33281 ≤ c16
  floor32 : 16641 ≤ c32
  floor64 : 8321 ≤ c64
  anti8 : c8 ≤ c1
  anti16 : c16 ≤ c8
  anti32 : c32 ≤ c16
  anti64 : c64 ≤ c32
  scale8 : c1 ≤ 8*c8+6
  scale16 : c8 ≤ 2*c16+1
  scale32 : c16 ≤ 2*c32+1
  scale64 : c32 ≤ 2*c64+1

theorem scaledCounts (tree : HostTree) :
    ScaledCounts (countOfClusters (treeClusterDemand tree) 1)
      (countOfClusters (treeClusterDemand tree) 8) (countOfClusters (treeClusterDemand tree) 16)
      (countOfClusters (treeClusterDemand tree) 32)
      (countOfClusters (treeClusterDemand tree) 64) := by
  have h8 := treeClusterDemand_scale tree (c := 512) (k := 8) (by omega) (by omega)
  have h16 := treeClusterDemand_scale tree (c := 4096) (k := 2) (by omega) (by omega)
  have h32 := treeClusterDemand_scale tree (c := 8192) (k := 2) (by omega) (by omega)
  have h64 := treeClusterDemand_scale tree (c := 16384) (k := 2) (by omega) (by omega)
  simp only [Nat.reduceMul] at h8 h16 h32 h64
  constructor <;>
    simp only [countOfClusters, divCeil, minPartSectors, sectorBytes, Nat.reduceMul,
      Nat.reduceAdd, Nat.reduceSub, Nat.reduceDiv, Nat.one_mul, Nat.div_one] <;> omega

def Straddles (demandAt : ℕ → ℕ) (spc cutoff : ℕ) : Prop :=
  cutoff < partitionSectors demandAt spc ∧ partitionSectors demandAt (2*spc) ≤ cutoff

instance (demandAt : ℕ → ℕ) (spc cutoff : ℕ) : Decidable (Straddles demandAt spc cutoff) :=
  inferInstanceAs (Decidable (_ ∧ _))

structure SizesSettle (demandAt : ℕ → ℕ) : Prop where
  at8 : ¬ Straddles demandAt 8 (2^24)
  at16 : ¬ Straddles demandAt 16 (2^25)
  at32 : ¬ Straddles demandAt 32 (2^26)
  wraps16 : ¬ (OverBand demandAt 8 ∧ FatSumWraps demandAt 16)
  wraps64 : ¬ FatSumWraps demandAt 64

def Scaled (demandAt : ℕ → ℕ) : Prop :=
  ScaledCounts (countOfClusters demandAt 1) (countOfClusters demandAt 8)
    (countOfClusters demandAt 16) (countOfClusters demandAt 32) (countOfClusters demandAt 64)

theorem partitionSectors_eq (demandAt : ℕ → ℕ) (spc : ℕ) : partitionSectors demandAt spc =
    32+2*((countOfClusters demandAt spc+129)/128)+countOfClusters demandAt spc*spc := rfl

section Scaled

variable (hc : Scaled demandAt)
include hc

/-- No band has a partition within the first of the table. -/
theorem Scaled.sizes_gt (s : ℕ) (hs : IsBand s) :
    532480 < partitionSectors demandAt s := by
  have hfloors := And.intro hc.floor1 (And.intro hc.floor8 (And.intro hc.floor16
    (And.intro hc.floor32 hc.floor64)))
  have heq := partitionSectors_eq demandAt s
  rcases hs with rfl | rfl | rfl | rfl | rfl <;> omega

/-- With small partitions every sum is exact. -/
theorem Scaled.exact (hp : partitionSectors demandAt 32 ≤ 2^27) {s : ℕ} (hs : IsBand s) :
    Exact demandAt s := by
  obtain ⟨_, _, _, _, _, _, _, _, _, _, _, _, _⟩ := hc
  have heq := partitionSectors_eq demandAt s
  have e32 := partitionSectors_eq demandAt 32
  rcases hs with rfl | hs
  · refine .of_not_over (by simp) ?_
    simp only [OverBand, fat32MaxClusters, u32Max]
    omega
  · refine .of_low (.inr hs) ?_ ?_ <;> rcases hs with rfl | rfl | rfl | rfl <;> omega

theorem returns1 (h8 : ReturnsFrom demandAt 8)
    (h16 : countOfClusters demandAt 16 ≤ 2^26 → ReturnsFrom demandAt 16)
    (h32 : countOfClusters demandAt 32 ≤ 2^26 → ReturnsFrom demandAt 32)
    (h64 : ReturnsFrom demandAt 64) : ReturnsFrom demandAt 1 := by
  obtain ⟨_, _, _, _, _, _, _, _, _, _, _, _, _⟩ := hc
  have e1 := partitionSectors_eq demandAt 1
  by_cases hover : OverBand demandAt 1
  · exact .of_next (settles_over hover) h8
  · refine returns_of_exact band1 (.of_not_over (by simp) hover) (by omega)
      (fun _ _ => h8) (fun _ _ _ => h16 (by omega)) (fun _ _ _ => h32 (by omega))
      (fun _ _ => h64)

/-- Everything lands in the top band, or returns before it. -/
theorem returns_of_high32 (hset : SizesSettle demandAt)
    (hp : 2^26 < partitionSectors demandAt 32) : ReturnsFrom demandAt 1 := by
  have hc' := hc
  obtain ⟨_, _, _, _, _, _, _, _, _, _, _, _, _⟩ := hc'
  have e8 := partitionSectors_eq demandAt 8
  have e16 := partitionSectors_eq demandAt 16
  have e32 := partitionSectors_eq demandAt 32
  have hp64 : 2^26 < partitionSectors demandAt 64 := by
    by_contra h
    exact hset.at32 ⟨hp, not_lt.mp h⟩
  have h64 := returns64_high hset.wraps64 hp64
  have h32 (hw : ¬ FatSumWraps demandAt 32) := returns32_high hw hp h64
  have h32low (h : countOfClusters demandAt 32 ≤ 2^26) : ReturnsFrom demandAt 32 :=
    h32 fun hw => by simp only [FatSumWraps, fatSectorsFor] at hw; omega
  have h16 (hw : ¬ FatSumWraps demandAt 16) : ReturnsFrom demandAt 16 := by
    rcases Nat.lt_or_ge (2^26) (partitionSectors demandAt 16) with hp16 | hp16
    · refine returns16_high hw hp16 (fun hdata => h32 fun hw32 => ?_) h64
      simp only [FatSumWraps, fatSectorsFor] at hw32
      omega
    · refine returns_of_exact band16 (.of_low band16 (by omega) (by simp))
        (by omega) (fun _ _ => ?_) (fun _ _ _ => ?_) (fun _ _ _ => h32low (by omega))
        (fun _ _ => h64) <;> omega
  have h16low (h : countOfClusters demandAt 16 ≤ 2^26) : ReturnsFrom demandAt 16 :=
    h16 fun hw => by simp only [FatSumWraps, fatSectorsFor] at hw; omega
  have h8 : ReturnsFrom demandAt 8 := by
    by_cases hover : OverBand demandAt 8
    · exact .of_next (settles_over hover) (h16 fun hw => hset.wraps16 ⟨hover, hw⟩)
    · refine returns_of_exact band8 (.of_not_over (by simp) hover) (by omega)
        (fun _ _ => ?_) (fun _ _ _ => h16low (by omega)) (fun _ _ _ => h32low (by omega))
        (fun _ _ => h64)
      omega
  exact returns1 hc h8 h16low h32low h64

/-- With the partition at 16 KiB clusters within its own cutoff every sum is
exact, and the bands lead to the least one that is within its cutoff. -/
theorem returns_of_low32 (hset : SizesSettle demandAt)
    (hp : partitionSectors demandAt 32 ≤ 2^26) : ReturnsFrom demandAt 1 := by
  have hc' := hc
  obtain ⟨_, _, _, _, _, _, _, _, _, _, _, _, _⟩ := hc'
  have e8 := partitionSectors_eq demandAt 8
  have e16 := partitionSectors_eq demandAt 16
  have e32 := partitionSectors_eq demandAt 32
  have e64 := partitionSectors_eq demandAt 64
  have landing {s : ℕ} (hs : IsBand s) :=
    returns_of_exact hs (hc.exact (hp.trans (by omega)) hs) (hc.sizes_gt s hs)
  have s8 (h : 2^24 < partitionSectors demandAt 8) : 2^24 < partitionSectors demandAt 16 := by
    by_contra h'
    exact hset.at8 ⟨h, not_lt.mp h'⟩
  have s16 (h : 2^25 < partitionSectors demandAt 16) : 2^25 < partitionSectors demandAt 32 := by
    by_contra h'
    exact hset.at16 ⟨h, not_lt.mp h'⟩
  by_cases h16 : 2^25 < partitionSectors demandAt 16
  · have r32 : ReturnsFrom demandAt 32 := landing band32
      (by have := s16 h16; omega) (by have := s16 h16; omega) (by simp) (by omega)
    have r64 (h : 2^25 < partitionSectors demandAt 64) : ReturnsFrom demandAt 64 :=
      landing band64 (by omega) (by omega) (fun _ _ _ => r32) (by simp)
    have r16 : ReturnsFrom demandAt 16 := landing band16 (by omega)
      (by simp) (fun _ _ _ => r32) (fun _ _ => r64 (by omega))
    have r64' : ReturnsFrom demandAt 64 := landing band64 (by omega)
      (fun _ _ _ => r16) (fun _ _ _ => r32) (by simp)
    have r8 : ReturnsFrom demandAt 8 := landing band8 (by simp)
      (fun _ _ _ => r16) (fun _ _ _ => r32) (fun _ _ => r64')
    exact returns1 hc r8 (fun _ => r16) (fun _ => r32) r64'
  · by_cases h8 : 2^24 < partitionSectors demandAt 8
    · have h16' := s8 h8
      have r16 : ReturnsFrom demandAt 16 := landing band16 (by omega)
        (by simp) (by omega) (by omega)
      have r32 (h : 2^24 < partitionSectors demandAt 32) : ReturnsFrom demandAt 32 :=
        landing band32 (by omega) (fun _ _ _ => r16) (by simp) (by omega)
      have r8 : ReturnsFrom demandAt 8 := landing band8 (by simp)
        (fun _ _ _ => r16) (fun _ _ _ => r32 (by omega)) (by omega)
      have r32' : ReturnsFrom demandAt 32 := landing band32
        (fun _ _ => r8) (fun _ _ _ => r16) (by simp) (by omega)
      have r64 : ReturnsFrom demandAt 64 := landing band64
        (fun _ _ => r8) (fun _ _ _ => r16) (fun _ _ _ => r32') (by simp)
      exact returns1 hc r8 (fun _ => r16) (fun _ => r32') r64
    · have r8 : ReturnsFrom demandAt 8 := landing band8 (by simp)
        (by omega) (by omega) (by omega)
      have r16 : ReturnsFrom demandAt 16 := landing band16
        (fun _ _ => r8) (by simp) (by omega) (by omega)
      have r32 : ReturnsFrom demandAt 32 := landing band32
        (fun _ _ => r8) (fun _ _ _ => r16) (by simp) (by omega)
      have r64 : ReturnsFrom demandAt 64 := landing band64
        (fun _ _ => r8) (fun _ _ _ => r16) (fun _ _ _ => r32) (by simp)
      exact returns1 hc r8 (fun _ => r16) (fun _ => r32) r64

omit hc in
/-- Bands up to `top` that the table leads around in. -/
theorem not_returns_of_around (top : ℕ) (htop : 1 ≤ top)
    (hexact : ∀ s, IsBand s → Exact demandAt s)
    (hlo : ∀ s, IsBand s → 532480 < partitionSectors demandAt s)
    (haround : ∀ s t, IsBand s → s ≤ top → Lands (partitionSectors demandAt s) t →
      t ≠ s ∧ t ≤ top) : ¬ GeometryReturns demandAt := by
  refine not_geometryReturns_of_closed (fun s => IsBand s ∧ s ≤ top) ⟨band1, htop⟩ ?_
  rintro s ⟨hs, hle⟩
  obtain ⟨t, ht, hlands⟩ := exists_landing (hlo s hs)
  obtain ⟨hne, hle'⟩ := haround s t hs hle hlands
  exact .inr ⟨t, (hexact s hs).settles_next hs ht hne, hlands.isBand, hle'⟩

/-- Around a cutoff the loop goes to and fro between the band before it and the next. -/
theorem not_returns_of_straddles (h : Straddles demandAt 8 (2^24) ∨
    Straddles demandAt 16 (2^25) ∨ Straddles demandAt 32 (2^26)) : ¬ GeometryReturns demandAt := by
  have hlo := hc.sizes_gt
  have hexact (hp : partitionSectors demandAt 32 ≤ 2^27) (s : ℕ) (hs : IsBand s) := hc.exact hp hs
  obtain ⟨_, _, _, _, _, _, _, _, _, _, _, _, _⟩ := hc
  have e1 := partitionSectors_eq demandAt 1
  have e8 := partitionSectors_eq demandAt 8
  have e16 := partitionSectors_eq demandAt 16
  have e32 := partitionSectors_eq demandAt 32
  have e64 := partitionSectors_eq demandAt 64
  rcases h with ⟨hover, hback⟩ | ⟨hover, hback⟩ | ⟨hover, hback⟩ <;>
    simp only [Nat.reduceMul] at hback
  · refine not_returns_of_around 16 (by omega) (hexact (by omega)) hlo ?_
    rintro s t (rfl | rfl | rfl | rfl | rfl) hle ht <;> unfold Lands at ht <;> omega
  · refine not_returns_of_around 32 (by omega) (hexact (by omega)) hlo ?_
    rintro s t (rfl | rfl | rfl | rfl | rfl) hle ht <;> unfold Lands at ht <;> omega
  · refine not_returns_of_around 64 (by omega) (hexact (by omega)) hlo ?_
    rintro s t (rfl | rfl | rfl | rfl | rfl) hle ht <;> unfold Lands at ht <;> omega

/-- A volume too large for 4 KiB clusters whose FATs wrap at 8 KiB ones. -/
theorem not_returns_of_wraps16 (h8 : OverBand demandAt 8)
    (h16 : FatSumWraps demandAt 16) : ¬ GeometryReturns demandAt := by
  obtain ⟨_, _, _, _, _, _, _, _, _, _, _, _, _⟩ := hc
  have o1 : OverBand demandAt 1 := by
    simp only [OverBand, fat32MaxClusters, u32Max, FatSumWraps] at h8 h16 ⊢
    omega
  have o16 : ¬ OverBand demandAt 16 := by
    simp only [OverBand, fat32MaxClusters, u32Max, FatSumWraps] at h16 ⊢
    omega
  refine not_geometryReturns_of_closed (fun s => s = 1 ∨ s = 8 ∨ s = 16) (by simp) ?_
  rintro s (rfl | rfl | rfl)
  · exact Or.inr ⟨8, settles_over o1, by simp⟩
  · exact Or.inr ⟨16, settles_over h8, by simp⟩
  · exact Or.inl (geometryPass_wraps band16 o16 h16)

/-- Every way up ends at the top band, or in a wrapping band before it. -/
theorem not_returns_of_wraps64 (hw : FatSumWraps demandAt 64) : ¬ GeometryReturns demandAt := by
  obtain ⟨_, _, _, _, _, _, _, _, _, _, _, _, _⟩ := hc
  have hw' := hw
  simp only [FatSumWraps, fatSectorsFor] at hw'
  have o64 : ¬ OverBand demandAt 64 := by
    simp only [OverBand, fat32MaxClusters, u32Max]
    omega
  have hsize (s : ℕ) (hs : IsBand s) (hne : s ≠ 64) : 2^26 < partitionSectors demandAt s := by
    have heq := partitionSectors_eq demandAt s
    rcases hs with rfl | rfl | rfl | rfl | rfl <;> omega
  refine not_geometryReturns_of_closed IsBand band1 fun s hs => ?_
  by_cases hne : s = 64
  · subst hne
    exact .inl (geometryPass_wraps band64 o64 hw)
  · rcases goes_up hs hne (hsize s hs hne) with ⟨hnext, -⟩ | htop | ⟨hover, hws⟩
    · refine .inr ⟨nextSpc s, hnext, ?_⟩
      rcases hs with rfl | rfl | rfl | rfl | rfl <;> simp [IsBand, nextSpc]
    · exact .inr ⟨64, htop, band64⟩
    · exact .inl (geometryPass_wraps hs hover hws)

end Scaled

/-- The geometry loop returns for exactly the trees whose sizes settle. -/
theorem geometryReturns_iff (tree : HostTree) :
    GeometryReturns (treeClusterDemand tree) ↔ SizesSettle (treeClusterDemand tree) := by
  have hc : Scaled (treeClusterDemand tree) := scaledCounts tree
  constructor
  · intro hret
    exact
      { at8 := fun h => not_returns_of_straddles hc (.inl h) hret
        at16 := fun h => not_returns_of_straddles hc (.inr (.inl h)) hret
        at32 := fun h => not_returns_of_straddles hc (.inr (.inr h)) hret
        wraps16 := fun h => not_returns_of_wraps16 hc h.1 h.2 hret
        wraps64 := fun h => not_returns_of_wraps64 hc h hret }
  · intro hset
    refine geometryReturns_of_returnsFrom ?_
    rcases Nat.lt_or_ge (2^26) (partitionSectors (treeClusterDemand tree) 32) with hp | hp
    · exact returns_of_high32 hc hset hp
    · exact returns_of_low32 hc hset hp

def straddlingTree : HostTree where
  root := .mk [⟨fun _ => 65, .hostFile [['a']] 3431055360, 0, 0⟩,
    ⟨fun _ => 66, .hostFile [['b']] 3431055360, 0, 0⟩] [] 0 0 0 []
  filesFit := by simp [TreeDir.AllFiles, TreeDir.AllFilesIn, FileSource.len]

/-- The geometry loop never returns for it. -/
theorem straddlingTree_not_returns : ¬ GeometryReturns (treeClusterDemand straddlingTree) :=
  not_returns_of_straddles (scaledCounts straddlingTree) (.inl (by decide))

end IzarraVM.Katea
