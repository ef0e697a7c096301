import IzarraVM.KateaAllocate

/-! What cluster assignment leaves alone, and what it writes. -/
namespace IzarraVM.Katea

variable {cb : ℕ}

def TreeFile.bare (f : TreeFile) : TreeFile := { f with firstCluster := 0, clusterCount := 0 }

mutual
def TreeDir.bare : TreeDir → TreeDir
  | .mk files subdirs _ _ _ path => .mk (files.map TreeFile.bare) (bareSubdirs subdirs) 0 0 0 path
def bareSubdirs : List TreeSubdir → List TreeSubdir
  | [] => []
  | s :: rest => ⟨s.name, s.dir.bare⟩ :: bareSubdirs rest
end

theorem bareSubdirs_eq (l : List TreeSubdir) :
    bareSubdirs l = l.map fun s => ⟨s.name, s.dir.bare⟩ := by
  induction l with
  | nil => rfl
  | cons s rest ih => rw [bareSubdirs, ih, List.map_cons]

theorem TreeDir.bare_files (d : TreeDir) : d.bare.files = d.files.map TreeFile.bare := by
  cases d
  rw [TreeDir.bare]
  rfl

theorem TreeDir.bare_subdirs (d : TreeDir) :
    d.bare.subdirs = d.subdirs.map fun s => ⟨s.name, s.dir.bare⟩ := by
  cases d
  rw [TreeDir.bare, bareSubdirs_eq]
  rfl

theorem assignFiles_bare (next cb : ℕ) (files : List TreeFile) :
    (assignFiles next cb files).1.map TreeFile.bare = files.map TreeFile.bare := by
  induction files generalizing next with
  | nil => rfl
  | cons f rest ih =>
    simp only [assignFiles, List.map_cons, ih]
    rfl

variable (cb : ℕ)

/-- Allocation only writes cluster numbers. -/
theorem assignDir_bare (d : TreeDir) (isRoot : Bool) (parent next : ℕ) :
    (assignDir isRoot parent next cb d).1.bare = d.bare := by
  induction d using TreeDir.induct generalizing isRoot parent next with
  | dir d ih =>
    obtain ⟨files, subdirs, first, count, parent', path⟩ := d
    have hsubs (parent next : ℕ) (l : List TreeSubdir) (hl : ∀ s ∈ l, s ∈ subdirs) :
        bareSubdirs (assignSubdirs parent next cb l).1 = bareSubdirs l := by
      induction l generalizing next with
      | nil => rfl
      | cons s rest ihl =>
        simp only [assignSubdirs, bareSubdirs, ih s (hl s List.mem_cons_self),
          ihl _ fun t ht => hl t (List.mem_cons_of_mem s ht)]
    simp only [assignDir, TreeDir.bare, assignFiles_bare, hsubs _ _ subdirs fun _ h => h]

/-- The directories of the tree without cluster numbers. -/
theorem walk_bare (isRoot : Bool) (d : TreeDir) :
    walk isRoot d.bare = (walk isRoot d).map fun p => (p.1, p.2.bare) := by
  induction d using TreeDir.induct generalizing isRoot with
  | dir d ih =>
    rw [walk_eq, walk_eq isRoot d, TreeDir.bare_subdirs, List.map_cons, List.flatMap_map,
      List.map_flatMap]
    congr 1
    exact List.flatMap_congr fun s hs => ih s hs false

/-- A property of names and sources passes from one tree to another that differs
in cluster numbers only. -/
theorem forall_walk_of_bare {P : TreeDir → Prop} (hP : ∀ d, P d.bare ↔ P d) {d e : TreeDir}
    (hbare : d.bare = e.bare) {isRoot : Bool} (h : ∀ p ∈ walk isRoot d, P p.2) :
    ∀ p ∈ walk isRoot e, P p.2 := by
  intro p hp
  have hmem : (p.1, p.2.bare) ∈ walk isRoot d.bare := by
    rw [hbare, walk_bare]
    exact List.mem_map_of_mem hp
  rw [walk_bare] at hmem
  obtain ⟨q, hq, heq⟩ := List.mem_map.mp hmem
  have hqp : q.2.bare = p.2.bare := congrArg Prod.snd heq
  exact (hP p.2).mp (hqp ▸ (hP q.2).mpr (h q hq))

end IzarraVM.Katea
