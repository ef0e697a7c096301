import IzarraVM.HostPath

/-! The host-folder tree of the Katea controller, with names, sources and cluster runs. -/
namespace IzarraVM.Katea

abbrev Name83 := Fin 11 → UInt8

instance lawfulName : LawfulBEq Name83 := inferInstance

instance lawfulKey : LawfulBEq (ℕ × Name83) := inferInstance

abbrev PathBuf := HostPath

abbrev sectorBytes : ℕ := 512
abbrev u32Max : ℕ := 2^32-1

def wrap32 (n : ℕ) : ℕ := n % 2^32

def divCeil (a b : ℕ) : ℕ := (a+b-1)/b

inductive FileSource where
  | inMemory (bytes : List UInt8)
  | hostFile (path : PathBuf) (len : ℕ)
deriving DecidableEq, Repr

def FileSource.len : FileSource → ℕ
  | .inMemory bytes => bytes.length
  | .hostFile _ len => len

structure TreeFile where
  name : Name83
  source : FileSource
  firstCluster : ℕ
  clusterCount : ℕ

structure SubdirOf (δ : Type) where
  name : Name83
  dir : δ

inductive TreeDir where
  | mk (files : List TreeFile) (subdirs : List (SubdirOf TreeDir))
      (firstCluster clusterCount parentFirstCluster : ℕ) (hostPath : PathBuf)

abbrev TreeSubdir := SubdirOf TreeDir

namespace TreeDir

def files : TreeDir → List TreeFile
  | mk files _ _ _ _ _ => files

def subdirs : TreeDir → List TreeSubdir
  | mk _ subdirs _ _ _ _ => subdirs

def firstCluster : TreeDir → ℕ
  | mk _ _ firstCluster _ _ _ => firstCluster

def clusterCount : TreeDir → ℕ
  | mk _ _ _ clusterCount _ _ => clusterCount

def parentFirstCluster : TreeDir → ℕ
  | mk _ _ _ _ parentFirstCluster _ => parentFirstCluster

def hostPath : TreeDir → PathBuf
  | mk _ _ _ _ _ hostPath => hostPath

/-- Induction over a directory tree: a property of all subdirectories passes to
the directory that holds them. -/
@[elab_as_elim]
theorem induct {P : TreeDir → Prop}
    (dir : ∀ d : TreeDir, (∀ s ∈ d.subdirs, P s.dir) → P d) (d : TreeDir) : P d := by
  refine @TreeDir.rec P (fun l => ∀ s ∈ l, P s.dir) (fun s => P s.dir) ?_ ?_ ?_ ?_ d
  · intro files subdirs first count parent path ih
    exact dir _ ih
  · intro s hs
    cases hs
  · intro head tail hhead htail s hs
    rcases List.mem_cons.mp hs with rfl | hs
    · exact hhead
    · exact htail s hs
  · intro name d hd
    exact hd

mutual
def AllFiles (P : TreeFile → Prop) : TreeDir → Prop
  | mk files subdirs _ _ _ _ => (∀ f ∈ files, P f) ∧ AllFilesIn P subdirs
def AllFilesIn (P : TreeFile → Prop) : List TreeSubdir → Prop
  | [] => True
  | s :: rest => AllFiles P s.dir ∧ AllFilesIn P rest
end

theorem allFilesIn_iff (P : TreeFile → Prop) (l : List TreeSubdir) :
    AllFilesIn P l ↔ ∀ s ∈ l, s.dir.AllFiles P := by
  induction l with
  | nil => simp [AllFilesIn]
  | cons s rest ih => simp [AllFilesIn, ih]

end TreeDir

/-- A mounted folder. Every file is below 4 GiB: the walk skips larger ones. -/
structure HostTree where
  root : TreeDir
  filesFit : root.AllFiles (fun f => f.source.len < 2^32)

end IzarraVM.Katea
