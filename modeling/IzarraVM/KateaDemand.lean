import IzarraVM.KateaGeometry

/-! How the cluster demand of a tree scales with the cluster size. -/
namespace IzarraVM.Katea

theorem divCeil_le_iff {b c m : ℕ} (hc : 0 < c) : divCeil b c ≤ m ↔ b ≤ m*c := by
  rw [divCeil, ← Nat.lt_succ_iff, Nat.div_lt_iff_lt_mul hc, Nat.succ_mul]
  omega

theorem le_divCeil_mul {b c : ℕ} (hc : 0 < c) : b ≤ divCeil b c*c :=
  (divCeil_le_iff hc).mp le_rfl

theorem divCeil_anti {b c k : ℕ} (hc : 0 < c) (hk : 0 < k) : divCeil b (k*c) ≤ divCeil b c := by
  rw [divCeil_le_iff (Nat.mul_pos hk hc)]
  calc b ≤ divCeil b c*c := le_divCeil_mul hc
    _ ≤ divCeil b c*(k*c) := Nat.mul_le_mul_left _ (Nat.le_mul_of_pos_left c hk)

theorem divCeil_le_scale {b c k : ℕ} (hc : 0 < c) (hk : 0 < k) :
    divCeil b c ≤ k*divCeil b (k*c) := by
  rw [divCeil_le_iff hc]
  calc b ≤ divCeil b (k*c)*(k*c) := le_divCeil_mul (Nat.mul_pos hk hc)
    _ = k*divCeil b (k*c)*c := by ring

/-- The narrowing to `u32` loses nothing for a chain that fits in 2^32 clusters. -/
theorem clustersFor_eq {b c : ℕ} (hb : b ≤ (2^32-1)*c) (hc : 0 < c) :
    clustersFor b c = max (divCeil b c) 1 := by
  have h := (divCeil_le_iff hc).mpr hb
  rw [clustersFor, wrap32, Nat.mod_eq_of_lt (by omega)]

theorem clustersFor_scale {b c k : ℕ} (hb : b ≤ (2^32-1)*c) (hc : 0 < c) (hk : 0 < k) :
    clustersFor b (k*c) ≤ clustersFor b c ∧ clustersFor b c ≤ k*clustersFor b (k*c) := by
  have hbk : b ≤ (2^32-1)*(k*c) :=
    hb.trans (Nat.mul_le_mul_left _ (Nat.le_mul_of_pos_left c hk))
  rw [clustersFor_eq hb hc, clustersFor_eq hbk (Nat.mul_pos hk hc)]
  refine ⟨max_le_max (divCeil_anti hc hk) le_rfl, max_le ?_ ?_⟩
  · exact (divCeil_le_scale hc hk).trans (Nat.mul_le_mul_left k (le_max_left _ _))
  · exact Nat.mul_pos hk (lt_of_lt_of_le one_pos (le_max_right _ _))

theorem entryCount_lt (dir : TreeDir) (isRoot : Bool) : entryCount dir isRoot < 2^32 :=
  Nat.mod_lt _ (by norm_num)

theorem filesDemand_scale {c k : ℕ} (hc : 512 ≤ c) (hk : 0 < k) (l : List TreeFile)
    (hl : ∀ f ∈ l, f.source.len < 2^32) :
    (l.map fun f => clustersFor f.source.len (k*c)).sum ≤
        (l.map fun f => clustersFor f.source.len c).sum ∧
      (l.map fun f => clustersFor f.source.len c).sum ≤
        k*(l.map fun f => clustersFor f.source.len (k*c)).sum := by
  induction l with
  | nil => simp
  | cons f rest ih =>
    have hf : f.source.len ≤ (2^32-1)*c := by
      have := hl f List.mem_cons_self
      omega
    have hhead := clustersFor_scale hf (by omega : 0 < c) hk
    have htail := ih fun g hg => hl g (List.mem_cons_of_mem f hg)
    simp only [List.map_cons, List.sum_cons, Nat.mul_add]
    omega

theorem subdirsDemand_scale {c k : ℕ} (l : List TreeSubdir)
    (hl : ∀ s ∈ l, dirDemand false (k*c) s.dir ≤ dirDemand false c s.dir ∧
      dirDemand false c s.dir ≤ k*dirDemand false (k*c) s.dir) :
    subdirsDemand (k*c) l ≤ subdirsDemand c l ∧ subdirsDemand c l ≤ k*subdirsDemand (k*c) l := by
  induction l with
  | nil => simp [subdirsDemand]
  | cons s rest ih =>
    have hhead := hl s List.mem_cons_self
    have htail := ih fun t ht => hl t (List.mem_cons_of_mem s ht)
    simp only [subdirsDemand, Nat.mul_add]
    omega

/-- The scaling law over a whole directory, by induction on the tree. -/
theorem dirDemand_scale {c k : ℕ} (hc : 512 ≤ c) (hk : 0 < k) (dir : TreeDir)
    (hfit : dir.AllFiles fun f => f.source.len < 2^32) (isRoot : Bool) :
    dirDemand isRoot (k*c) dir ≤ dirDemand isRoot c dir ∧
      dirDemand isRoot c dir ≤ k*dirDemand isRoot (k*c) dir := by
  induction dir using TreeDir.induct generalizing isRoot with
  | dir d ih =>
    obtain ⟨files, subdirs, first, count, parent, path⟩ := d
    rw [TreeDir.AllFiles, TreeDir.allFilesIn_iff] at hfit
    have hown := clustersFor_scale (k := k)
      (show entryCount (.mk files subdirs first count parent path) isRoot*32 ≤ (2^32-1)*c by
        have := entryCount_lt (.mk files subdirs first count parent path) isRoot
        omega) (by omega : 0 < c) hk
    have hfiles := filesDemand_scale hc hk files hfit.1
    have hsubs := subdirsDemand_scale (k := k) (c := c) subdirs
      fun s hs => ih s hs (hfit.2 s hs) false
    simp only [dirDemand, Nat.mul_add]
    omega

theorem treeClusterDemand_scale (tree : HostTree) {c k : ℕ} (hc : 512 ≤ c) (hk : 0 < k) :
    treeClusterDemand tree (k*c) ≤ treeClusterDemand tree c ∧
      treeClusterDemand tree c ≤ k*treeClusterDemand tree (k*c) :=
  dirDemand_scale hc hk tree.root tree.filesFit true

end IzarraVM.Katea
