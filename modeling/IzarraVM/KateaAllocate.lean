import IzarraVM.KateaDemand
import IzarraVM.RunTiling

/-! Cluster allocation: one counter hands out the runs, depth first, without gaps. -/
namespace IzarraVM.Katea

def assignFiles (next clusterBytes : ℕ) : List TreeFile → List TreeFile × ℕ
  | [] => ([], next)
  | f :: rest =>
    let count := clustersFor f.source.len clusterBytes
    let (rest, next') := assignFiles (next+count) clusterBytes rest
    ({ f with firstCluster := next, clusterCount := count } :: rest, next')

mutual
def assignDir (isRoot : Bool) (parent next clusterBytes : ℕ) : TreeDir → TreeDir × ℕ
  | .mk files subdirs first count parent' path =>
    let count := clustersFor
      (entryCount (.mk files subdirs first count parent' path) isRoot*32) clusterBytes
    let assigned := assignFiles (next+count) clusterBytes files
    let placed := assignSubdirs next assigned.2 clusterBytes subdirs
    (.mk assigned.1 placed.1 next count parent path, placed.2)
def assignSubdirs (parent next clusterBytes : ℕ) : List TreeSubdir → List TreeSubdir × ℕ
  | [] => ([], next)
  | s :: rest =>
    let placed := assignDir false parent next clusterBytes s.dir
    let others := assignSubdirs parent placed.2 clusterBytes rest
    (⟨s.name, placed.1⟩ :: others.1, others.2)
end

mutual
def walk (isRoot : Bool) : TreeDir → List (Bool × TreeDir)
  | .mk files subdirs first count parent path =>
    (isRoot, .mk files subdirs first count parent path) :: walkSubdirs subdirs
def walkSubdirs : List TreeSubdir → List (Bool × TreeDir)
  | [] => []
  | s :: rest => walk false s.dir ++ walkSubdirs rest
end

theorem walkSubdirs_eq (l : List TreeSubdir) :
    walkSubdirs l = l.flatMap fun s => walk false s.dir := by
  induction l with
  | nil => rfl
  | cons s rest ih => rw [walkSubdirs, ih, List.flatMap_cons]

variable (isRoot : Bool)

variable (d : TreeDir)

theorem walk_eq :
    walk isRoot d = (isRoot, d) :: d.subdirs.flatMap fun s => walk false s.dir := by
  cases d
  rw [walk, walkSubdirs_eq]
  rfl

inductive Owner where
  | dir (isRoot : Bool) (dir : TreeDir)
  | file (dir : TreeDir) (file : TreeFile)

def dirRun : Run Owner :=
  ⟨d.firstCluster, d.firstCluster+d.clusterCount-1, .dir isRoot d⟩

def fileRun (f : TreeFile) : Run Owner :=
  ⟨f.firstCluster, f.firstCluster+f.clusterCount-1, .file d f⟩

def ownRuns (p : Bool × TreeDir) : List (Run Owner) :=
  dirRun p.1 p.2 :: p.2.files.map (fileRun p.2)

def treeRuns : List (Run Owner) := (walk isRoot d).flatMap ownRuns

/-- The geometry, and the tree with its clusters. `none` when `fuel` does not end the loop. -/
def allocate (tree : HostTree) (fuel : ℕ) : Option (Except String (TreeDir × Geometry)) :=
  match fat32GeometryFor (treeClusterDemand tree) fuel with
  | none => none
  | some (.error e) => some (.error e)
  | some (.ok geo) =>
    some (.ok ((assignDir true 0 rootCluster (geo.spc*sectorBytes) tree.root).1, geo))

theorem allocate_ok {tree : HostTree} {root : TreeDir} {fuel : ℕ} {geo : Geometry}
    (h : allocate tree fuel = some (.ok (root, geo))) :
    fat32GeometryFor (treeClusterDemand tree) fuel = some (.ok geo) ∧
      root = (assignDir true 0 rootCluster (geo.spc*sectorBytes) tree.root).1 := by
  unfold allocate at h
  split at h
  · cases h
  · cases h
  · next hgeo =>
    cases h
    exact ⟨hgeo, rfl⟩

end IzarraVM.Katea
