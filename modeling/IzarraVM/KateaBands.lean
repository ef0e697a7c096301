import IzarraVM.KateaSizing

/-! The transitions of the geometry loop between the bands of the cluster-size table. -/
namespace IzarraVM.Katea
open Loop

variable {demandAt : ℕ → ℕ} {spc t : ℕ}

theorem band1 : IsBand 1 := .inl rfl

theorem band8 : IsBand 8 := .inr (.inl rfl)

theorem band16 : IsBand 16 := .inr (.inr (.inl rfl))

theorem band32 : IsBand 32 := .inr (.inr (.inr (.inl rfl)))

theorem band64 : IsBand 64 := .inr (.inr (.inr (.inr rfl)))

def Lands (P t : ℕ) : Prop :=
  t = 8 ∧ P ≤ 2^24 ∨ t = 16 ∧ 2^24 < P ∧ P ≤ 2^25 ∨ t = 32 ∧ 2^25 < P ∧ P ≤ 2^26 ∨ t = 64 ∧ 2^26 < P

theorem exists_landing {P : ℕ} (h : 532480 < P) : ∃ t, sectorsPerCluster P = some t ∧ Lands P t := by
  unfold sectorsPerCluster Lands
  split_ifs
  · omega
  · omega
  · exact ⟨8, rfl, by omega⟩
  · exact ⟨16, rfl, by omega⟩
  · exact ⟨32, rfl, by omega⟩
  · exact ⟨64, rfl, by omega⟩

theorem Lands.isBand {P : ℕ} (h : Lands P t) : IsBand t := by
  unfold IsBand
  rcases h with ⟨rfl, -⟩ | ⟨rfl, -⟩ | ⟨rfl, -⟩ | ⟨rfl, -⟩ <;> decide

theorem sectorsPerCluster_eq_64 {P : ℕ} (h : 2^26 < P) : sectorsPerCluster P = some 64 := by
  unfold sectorsPerCluster
  split_ifs <;> first | rfl | omega

structure Exact (demandAt : ℕ → ℕ) (spc : ℕ) : Prop where
  notOver : ¬ OverBand demandAt spc
  fits : partitionSectors demandAt spc+130*spc < 2^32+31
  total : partStart+partitionSectors demandAt spc ≤ u32Max

def exactGeometry (demandAt : ℕ → ℕ) (spc : ℕ) : Geometry where
  spc := spc
  fatsz := fatSectorsFor (countOfClusters demandAt spc)
  partStart := partStart
  partSectors := partitionSectors demandAt spc
  totalSectors := partStart+partitionSectors demandAt spc
  firstDataSector := reservedSectors+numFats*fatSectorsFor (countOfClusters demandAt spc)
  countOfClusters := countOfClusters demandAt spc

theorem closePass_exact (h : Exact demandAt spc)
    (ht : sectorsPerCluster (partitionSectors demandAt spc) = some t) :
    closePass demandAt spc (fatSectorsFor (countOfClusters demandAt spc)) =
      if t ≠ spc then some (.next t) else some (.done (.ok (exactGeometry demandAt spc))) := by
  have htotal := h.total
  simp only [partitionSectors, partStart, u32Max] at htotal ht
  have hused : wrap32 (reservedSectors+numFats*fatSectorsFor (countOfClusters demandAt spc)) =
      reservedSectors+numFats*fatSectorsFor (countOfClusters demandAt spc) :=
    Nat.mod_eq_of_lt (by omega)
  simp only [closePass, hused, ht, exactGeometry, partitionSectors]
  rw [if_neg (by simp only [partStart, u32Max]; omega)]

section

variable (hs : IsBand spc) (h : Exact demandAt spc)
include hs h

theorem Exact.run : ∃ n, run (fixedBody (refineFatsz (countOfClusters demandAt spc*spc) spc)) n
      (refineFatsz (countOfClusters demandAt spc*spc) spc 0) =
        some (fatSectorsFor (countOfClusters demandAt spc)) := by
  refine run_refineFatsz_exact hs ?_
  have := h.fits
  simp only [partitionSectors, reservedSectors, numFats] at this
  omega

theorem Exact.settles_next
    (ht : sectorsPerCluster (partitionSectors demandAt spc) = some t) (hne : t ≠ spc) :
    PassSettles demandAt spc (.next t) := by
  obtain ⟨n, hn⟩ := h.run hs
  refine settles_of_run h.notOver hn ?_
  rw [closePass_exact h ht, if_pos hne]

theorem Exact.settles_done (ht : sectorsPerCluster (partitionSectors demandAt spc) = some spc) :
    PassSettles demandAt spc (.done (.ok (exactGeometry demandAt spc))) := by
  obtain ⟨n, hn⟩ := h.run hs
  refine settles_of_run h.notOver hn ?_
  rw [closePass_exact h ht, if_neg (not_not.mpr rfl)]

/-- Wherever the table leads, the loop returns from there. -/
theorem Exact.returns_of_landing (ht : sectorsPerCluster (partitionSectors demandAt spc) = some t)
    (hr : t ≠ spc → ReturnsFrom demandAt t) : ReturnsFrom demandAt spc := by
  by_cases hne : t = spc
  · subst hne
    exact .of_done (h.settles_done hs ht)
  · exact .of_next (h.settles_next hs ht hne) (hr hne)

end

/-- Small partitions are always sized exactly. -/
theorem Exact.of_low (hs : IsBand spc) (h : partitionSectors demandAt spc ≤ 2^30) (hs1 : spc ≠ 1) :
    Exact demandAt spc := by
  simp only [partitionSectors, reservedSectors, numFats] at h
  refine ⟨?_, ?_, ?_⟩ <;> simp only [OverBand, partitionSectors, reservedSectors, numFats,
    partStart, u32Max, fat32MaxClusters]
  all_goals
    generalize countOfClusters demandAt spc = count at h ⊢
    rcases hs with rfl | rfl | rfl | rfl | rfl <;> omega

theorem Exact.of_not_over (hs : spc = 1 ∨ spc = 8) (h : ¬ OverBand demandAt spc) :
    Exact demandAt spc := by
  refine ⟨h, ?_, ?_⟩ <;> simp only [OverBand, fat32MaxClusters, u32Max] at h <;>
    simp only [partitionSectors, fatSectorsFor, reservedSectors, numFats, partStart, u32Max]
  all_goals
    generalize countOfClusters demandAt spc = count at h ⊢
    rcases hs with rfl | rfl <;> omega

/-- From 8 KiB clusters up there are four cases: the band is too small, the sums
are exact, the inner loop runs for ever, or the data alone reach 2^32. -/
theorem band_cases (demandAt : ℕ → ℕ) (spc : ℕ) (hs : spc = 16 ∨ spc = 32 ∨ spc = 64) :
    OverBand demandAt spc ∨ Exact demandAt spc ∨
      (¬ OverBand demandAt spc ∧ FatSumWraps demandAt spc) ∨
      (¬ OverBand demandAt spc ∧ 2^32 ≤ countOfClusters demandAt spc*spc+130*spc+1) := by
  by_cases hover : OverBand demandAt spc
  · exact Or.inl hover
  refine Or.inr ?_
  by_cases hw : FatSumWraps demandAt spc
  · exact Or.inr (Or.inl ⟨hover, hw⟩)
  by_cases hdata : 2^32 ≤ countOfClusters demandAt spc*spc+130*spc+1
  · exact Or.inr (Or.inr ⟨hover, hdata⟩)
  refine Or.inl ⟨hover, ?_, ?_⟩ <;> simp only [FatSumWraps] at hw <;>
    simp only [partitionSectors, reservedSectors, numFats, partStart, u32Max]
  all_goals
    generalize countOfClusters demandAt spc = count at hw hdata ⊢
    rcases hs with rfl | rfl | rfl <;> omega

/-- With the data alone past 2^32 the pass goes on to the next band, and at the top it returns. -/
theorem wrapped_settles (hs : spc = 16 ∨ spc = 32 ∨ spc = 64) (hover : ¬ OverBand demandAt spc)
    (hdata : 2^32 ≤ countOfClusters demandAt spc*spc+130*spc+1) :
    (spc = 64 ∧ ∃ r, PassSettles demandAt spc (.done r)) ∨
      (spc ≠ 64 ∧ PassSettles demandAt spc (.next (nextSpc spc))) := by
  have hfit : countOfClusters demandAt spc*spc < 2^32 := by
    simp only [OverBand, u32Max] at hover
    omega
  obtain ⟨n, f, hf, hn⟩ := run_refineFatsz_wrapped
    (by rcases hs with rfl | rfl | rfl <;> simp [IsBand]) hfit hdata
  have hused : wrap32 (reservedSectors+numFats*f) = 32+2*f := Nat.mod_eq_of_lt (by
    simp only [reservedSectors, numFats]; omega)
  have hpart : 2^26 < 32+2*f+countOfClusters demandAt spc*spc := by
    rcases hs with rfl | rfl | rfl <;> omega
  have hclose : closePass demandAt spc f = some (climb spc) ∨
      (spc ≠ 16 ∧ closePass demandAt spc f = if 64 ≠ spc then some (.next 64) else
        some (.done (.ok (Geometry.mk spc f partStart
          (32+2*f+countOfClusters demandAt spc*spc)
          (partStart+(32+2*f+countOfClusters demandAt spc*spc)) (32+2*f)
          (countOfClusters demandAt spc))))) := by
    simp only [closePass, hused, sectorsPerCluster_eq_64 hpart]
    split
    · exact Or.inl rfl
    · next htotal =>
      refine Or.inr ⟨?_, rfl⟩
      rintro rfl
      simp only [partStart, u32Max] at htotal
      omega
  rcases hclose with hclose | ⟨h16, hclose⟩
  · have := settles_of_run hover hn hclose
    rcases hs with rfl | rfl | rfl
    · exact Or.inr ⟨by decide, this⟩
    · exact Or.inr ⟨by decide, this⟩
    · exact Or.inl ⟨rfl, _, this⟩
  · have := settles_of_run hover hn (hclose.trans (apply_ite some _ _ _).symm)
    rcases hs with rfl | rfl | rfl
    · exact absurd rfl h16
    · exact Or.inr ⟨by decide, this⟩
    · exact Or.inl ⟨rfl, _, this⟩

theorem returns_of_exact (hs : IsBand spc) (he : Exact demandAt spc)
    (hlo : 532480 < partitionSectors demandAt spc)
    (h8 : partitionSectors demandAt spc ≤ 2^24 → spc ≠ 8 → ReturnsFrom demandAt 8)
    (h16 : 2^24 < partitionSectors demandAt spc → partitionSectors demandAt spc ≤ 2^25 →
      spc ≠ 16 → ReturnsFrom demandAt 16)
    (h32 : 2^25 < partitionSectors demandAt spc → partitionSectors demandAt spc ≤ 2^26 →
      spc ≠ 32 → ReturnsFrom demandAt 32)
    (h64 : 2^26 < partitionSectors demandAt spc → spc ≠ 64 → ReturnsFrom demandAt 64) :
    ReturnsFrom demandAt spc := by
  obtain ⟨t, ht, hlands⟩ := exists_landing hlo
  refine he.returns_of_landing hs ht fun hne => ?_
  rcases hlands with ⟨rfl, h⟩ | ⟨rfl, h, h'⟩ | ⟨rfl, h, h'⟩ | ⟨rfl, h⟩
  · exact h8 h hne.symm
  · exact h16 h h' hne.symm
  · exact h32 h h' hne.symm
  · exact h64 h hne.symm

theorem returns64_high (hw : ¬ FatSumWraps demandAt 64)
    (hp : 2^26 < partitionSectors demandAt 64) : ReturnsFrom demandAt 64 := by
  rcases band_cases demandAt 64 (by simp) with
    hover | he | ⟨-, hw'⟩ | ⟨hover, hdata⟩
  · exact .of_done (settles_over hover)
  · exact he.returns_of_landing band64 (sectorsPerCluster_eq_64 hp)
      fun hne => absurd rfl hne
  · exact absurd hw' hw
  · rcases wrapped_settles (by simp) hover hdata with ⟨-, r, hr⟩ | ⟨hne, -⟩
    · exact .of_done hr
    · exact absurd rfl hne

/-- With a partition for the top band, a pass of a lower one goes to the next or to the top. -/
theorem goes_up (hs : IsBand spc) (hne : spc ≠ 64) (hp : 2^26 < partitionSectors demandAt spc) :
    (PassSettles demandAt spc (.next (nextSpc spc)) ∧
      (OverBand demandAt spc ∨ 2^32 ≤ countOfClusters demandAt spc*spc+130*spc+1)) ∨
      PassSettles demandAt spc (.next 64) ∨ (¬ OverBand demandAt spc ∧ FatSumWraps demandAt spc) := by
  by_cases hover : OverBand demandAt spc
  · refine .inl ⟨?_, .inl hover⟩
    have hclimb := settles_over hover
    rcases hs with rfl | rfl | rfl | rfl | rfl <;> first | exact hclimb | exact absurd rfl hne
  have hexact (he : Exact demandAt spc) : PassSettles demandAt spc (.next 64) :=
    he.settles_next hs (sectorsPerCluster_eq_64 hp) hne.symm
  by_cases hlow : spc = 1 ∨ spc = 8
  · exact .inr (.inl (hexact (.of_not_over hlow hover)))
  have hhigh : spc = 16 ∨ spc = 32 ∨ spc = 64 := by
    unfold IsBand at hs
    omega
  rcases band_cases demandAt spc hhigh with hover' | he | hw | ⟨-, hdata⟩
  · exact absurd hover' hover
  · exact .inr (.inl (hexact he))
  · exact .inr (.inr hw)
  · rcases wrapped_settles hhigh hover hdata with ⟨h, -⟩ | ⟨-, hnext⟩
    · exact absurd h hne
    · exact .inl ⟨hnext, .inr hdata⟩

theorem returns32_high (hw : ¬ FatSumWraps demandAt 32)
    (hp : 2^26 < partitionSectors demandAt 32) (h64 : ReturnsFrom demandAt 64) :
    ReturnsFrom demandAt 32 := by
  rcases goes_up band32 (by decide) hp with ⟨hnext, -⟩ | htop | ⟨-, hw'⟩
  · exact .of_next hnext h64
  · exact .of_next htop h64
  · exact absurd hw' hw

theorem returns16_high (hw : ¬ FatSumWraps demandAt 16)
    (hp : 2^26 < partitionSectors demandAt 16)
    (h32 : 2^32 ≤ countOfClusters demandAt 16*16+130*16+1 → ReturnsFrom demandAt 32)
    (h64 : ReturnsFrom demandAt 64) : ReturnsFrom demandAt 16 := by
  rcases goes_up band16 (by decide) hp with ⟨hnext, hdata⟩ | htop | ⟨-, hw'⟩
  · refine .of_next hnext (h32 ?_)
    simp only [OverBand, fat32MaxClusters, u32Max] at hdata
    omega
  · exact .of_next htop h64
  · exact absurd hw' hw

end IzarraVM.Katea
