import IzarraVM.HostPath
import IzarraVM.InsertAll

/-! A host file system: files by path, contents by inode, no links. -/
namespace IzarraVM

inductive HostNode where
  | dir
  | file (inode : ℕ)
deriving DecidableEq

structure HostFs where
  nodes : AList fun _ : HostPath => HostNode
  data : ℕ → List UInt8
  nextInode : ℕ

namespace HostFs

variable (fs : HostFs)

variable (p : HostPath)

def isDir : Bool := p = [] || fs.nodes.lookup p = some .dir

def pathExists : Bool := p = [] || (fs.nodes.lookup p).isSome

def read : Option (List UInt8) :=
  match fs.nodes.lookup p with
  | some (.file inode) => some (fs.data inode)
  | _ => none

def hasParent : Bool := (HostPath.parent p).any fs.isDir

def isEmptyDir : Bool :=
  fs.isDir p && fs.nodes.keys.all fun q => !(p.isPrefixOf q && q ≠ p)

def setData (inode : ℕ) (bytes : List UInt8) : HostFs :=
  { fs with data := Function.update fs.data inode bytes }

def openWrite : Option (ℕ × HostFs) :=
  match fs.nodes.lookup p with
  | some (.file inode) => some (inode, fs)
  | some .dir => none
  | none =>
    if fs.hasParent p then
      some (fs.nextInode,
        { nodes := fs.nodes.insert p (.file fs.nextInode)
          data := Function.update fs.data fs.nextInode []
          nextInode := fs.nextInode+1 })
    else none

def writeAt (inode off : ℕ) (bytes : List UInt8) : HostFs :=
  let old := fs.data inode
  fs.setData inode
    (old.take off ++ List.replicate (off-old.length) 0 ++ bytes ++ old.drop (off+bytes.length))

def setLen (inode len : ℕ) : HostFs :=
  let old := fs.data inode
  fs.setData inode (old.take len ++ List.replicate (len-old.length) 0)

def write (bytes : List UInt8) : Option HostFs :=
  (fs.openWrite p).map fun (inode, fs) => fs.setData inode bytes

def removeFile : Option HostFs :=
  match fs.nodes.lookup p with
  | some (.file _) => some { fs with nodes := fs.nodes.erase p }
  | _ => none

def removeDir : Option HostFs :=
  if fs.isEmptyDir p then some { fs with nodes := fs.nodes.erase p } else none

def createDirAll : Option HostFs :=
  p.inits.foldlM (fun fs q =>
    if fs.isDir q then some fs
    else if fs.pathExists q then none
    else some { fs with nodes := fs.nodes.insert q .dir }) fs

def moved (old new : HostPath) : List (HostPath × HostNode) :=
  fs.nodes.entries.filterMap fun e =>
    if old.isPrefixOf e.1 then some (new ++ e.1.drop old.length, e.2) else none

def below : List HostPath :=
  fs.nodes.keys.filter fun q => p.isPrefixOf q

def rename (old new : HostPath) : Option HostFs :=
  match fs.nodes.lookup old with
  | none => none
  | some (.file inode) =>
    if old = new then some fs
    else if fs.isDir new || !fs.hasParent new then none
    else some { fs with nodes := (fs.nodes.erase old).insert new (.file inode) }
  | some .dir =>
    if old = new then some fs
    else if old.isPrefixOf new || !fs.hasParent new then none
    else if fs.pathExists new && !fs.isEmptyDir new then none
    else some { fs with
      nodes := insertAll (fs.moved old new) ((fs.below old).foldl (fun m q => m.erase q) fs.nodes) }

end HostFs

abbrev HostFaults := ℕ → Option (HostFs → HostFs)

structure Host where
  fs : HostFs
  ops : ℕ

def Host.attempt {α : Type} (host : Host) (faults : HostFaults)
    (op : HostFs → Option (α × HostFs)) : Option α × Host :=
  match faults host.ops with
  | some wreck => (none, ⟨wreck host.fs, host.ops+1⟩)
  | none =>
    match op host.fs with
    | some (a, fs) => (some a, ⟨fs, host.ops+1⟩)
    | none => (none, ⟨host.fs, host.ops+1⟩)

def Host.attemptUnit (host : Host) (faults : HostFaults) (op : HostFs → Option HostFs) :
    Bool × Host :=
  let (done, host) := host.attempt faults fun fs => (op fs).map fun fs => ((), fs)
  (done.isSome, host)

def HostNode.inode : HostNode → Option ℕ
  | .dir => none
  | .file inode => some inode

def HostFs.inode (fs : HostFs) (p : HostPath) : Option ℕ := (fs.nodes.lookup p).bind HostNode.inode

/-- A host operation that fails leaves the host as it was. -/
def HostFaults.Harmless (faults : HostFaults) : Prop := ∀ n wreck, faults n = some wreck → wreck = id

theorem Host.attempt_cases {α : Type} {faults : HostFaults} (hfaults : faults.Harmless) (host : Host)
    (op : HostFs → Option (α × HostFs)) :
    (host.attempt faults op = (none, ⟨host.fs, host.ops+1⟩)) ∨
      ∃ a fs, op host.fs = some (a, fs) ∧ host.attempt faults op = (some a, ⟨fs, host.ops+1⟩) := by
  unfold Host.attempt
  cases hfault : faults host.ops with
  | some wreck =>
    rw [hfaults _ wreck hfault]
    exact Or.inl rfl
  | none =>
    cases hop : op host.fs with
    | none => exact Or.inl rfl
    | some p => exact Or.inr ⟨p.1, p.2, rfl, rfl⟩

theorem Host.attemptUnit_cases {faults : HostFaults} (hfaults : faults.Harmless) (host : Host)
    (op : HostFs → Option HostFs) :
    (host.attemptUnit faults op = (false, ⟨host.fs, host.ops+1⟩)) ∨
      ∃ fs, op host.fs = some fs ∧ host.attemptUnit faults op = (true, ⟨fs, host.ops+1⟩) := by
  unfold Host.attemptUnit
  rcases host.attempt_cases hfaults fun fs => (op fs).map fun fs => ((), fs) with h | ⟨a, fs, hop, h⟩
  · exact Or.inl (by rw [h]; rfl)
  · obtain ⟨fs', hfs', heq⟩ := Option.map_eq_some_iff.mp hop
    cases heq
    exact Or.inr ⟨fs, hfs', by rw [h]; rfl⟩

namespace HostFs

/-- Nothing changes but the files of these paths and the contents of these inodes. -/
structure Touches (paths : List HostPath) (inodes : List ℕ) (fs fs' : HostFs) : Prop where
  inode : ∀ q ∉ paths, fs'.inode q = fs.inode q
  data : ∀ i ∉ inodes, fs'.data i = fs.data i

variable {paths : List HostPath} {inodes : List ℕ} {fs fs' fs'' : HostFs} {p q : HostPath} {i : ℕ}

namespace Touches

theorem refl : Touches paths inodes fs fs := ⟨fun _ _ => rfl, fun _ _ => rfl⟩

theorem trans (h : Touches paths inodes fs fs') (h' : Touches paths inodes fs' fs'') :
    Touches paths inodes fs fs'' :=
  ⟨fun q hq => (h'.inode q hq).trans (h.inode q hq), fun i hi => (h'.data i hi).trans (h.data i hi)⟩

theorem read (h : Touches paths inodes fs fs') (hq : q ∉ paths)
    (hi : ∀ i ∈ fs.inode q, i ∉ inodes) : fs'.read q = fs.read q := by
  have hread (g : HostFs) : g.read q = (g.inode q).map g.data := by
    unfold HostFs.read HostFs.inode
    rcases g.nodes.lookup q with _ | _ | _ <;> rfl
  rw [hread, hread, h.inode q hq]
  exact Option.map_congr fun i hmem => h.data i (hi i hmem)

end Touches

theorem inode_congr (h : fs'.nodes.lookup q = fs.nodes.lookup q) : fs'.inode q = fs.inode q :=
  congrArg (·.bind HostNode.inode) h

theorem setData_touches (hi : i ∈ inodes) (bytes : List UInt8) :
    Touches paths inodes fs (fs.setData i bytes) :=
  ⟨fun _ _ => rfl, fun _ hj => Function.update_of_ne (ne_of_mem_of_not_mem hi hj).symm _ _⟩

section

variable (hp : p ∈ paths)
include hp

theorem erase_touches : Touches paths inodes fs { fs with nodes := fs.nodes.erase p } :=
  ⟨fun _ hq => inode_congr (AList.lookup_erase_ne (ne_of_mem_of_not_mem hp hq).symm), fun _ _ => rfl⟩

theorem removeFile_touches (h : fs.removeFile p = some fs') : Touches paths inodes fs fs' := by
  unfold removeFile at h
  split at h
  · cases h
    exact erase_touches hp
  · cases h

theorem removeDir_touches (h : fs.removeDir p = some fs') : Touches paths inodes fs fs' := by
  unfold removeDir at h
  split_ifs at h
  cases h
  exact erase_touches hp

variable (hnext : fs.nextInode ∈ inodes)
include hnext

/-- A path is opened with the inode it has, or with the next one. -/
theorem openWrite_touches (h : fs.openWrite p = some (i, fs')) :
    Touches paths inodes fs fs' ∧ fs'.nodes.lookup p = some (.file i) ∧
      (fs.inode p = some i ∨ i = fs.nextInode) := by
  unfold openWrite at h
  split at h
  · next inode hfile =>
    cases h
    exact ⟨.refl, hfile, Or.inl (by rw [HostFs.inode, hfile]; rfl)⟩
  · cases h
  · split_ifs at h
    cases h
    refine ⟨⟨fun q hq => inode_congr ?_, fun j hj => ?_⟩, AList.lookup_insert _, Or.inr rfl⟩
    · exact AList.lookup_insert_ne (ne_of_mem_of_not_mem hp hq).symm
    · exact Function.update_of_ne (ne_of_mem_of_not_mem hnext hj).symm _ _

theorem write_touches (hinode : ∀ i ∈ fs.inode p, i ∈ inodes) {bytes : List UInt8}
    (h : fs.write p bytes = some fs') :
    Touches paths inodes fs fs' ∧ fs'.nodes.lookup p ≠ some .dir := by
  obtain ⟨⟨i, opened⟩, hopen, rfl⟩ := Option.map_eq_some_iff.mp h
  obtain ⟨hopened, hnode, hi⟩ := openWrite_touches hp hnext hopen
  have hmem : i ∈ inodes := by
    rcases hi with hi | rfl
    · exact hinode i hi
    · exact hnext
  refine ⟨hopened.trans (setData_touches hmem bytes), ?_⟩
  rw [show (opened.setData i bytes).nodes = opened.nodes from rfl, hnode]
  nofun

end

/-- What is not a directory is renamed with its bytes. -/
theorem rename_touches {old new : HostPath} (hdir : fs.nodes.lookup old ≠ some .dir)
    (hold : old ∈ paths) (hnew : new ∈ paths) (h : fs.rename old new = some fs') :
    Touches paths inodes fs fs' ∧ fs'.read new = fs.read old := by
  unfold rename at h
  split at h
  · cases h
  · next inode hfile =>
    split_ifs at h with heq
    · cases h
      exact ⟨.refl, by rw [heq]⟩
    · cases h
      refine ⟨⟨fun q hq => inode_congr ?_, fun _ _ => rfl⟩, ?_⟩
      · exact (AList.lookup_insert_ne (ne_of_mem_of_not_mem hnew hq).symm).trans
          (AList.lookup_erase_ne (ne_of_mem_of_not_mem hold hq).symm)
      · simp only [read, AList.lookup_insert, hfile]
  · next hfile => exact absurd hfile hdir

/-- Directories are made where nothing is. -/
theorem createDirAll_touches (h : fs.createDirAll p = some fs') : Touches paths inodes fs fs' := by
  unfold createDirAll at h
  generalize p.inits = prefixes at h
  induction prefixes generalizing fs with
  | nil =>
    cases h
    exact .refl
  | cons d rest ih =>
    rw [List.foldlM_cons] at h
    split_ifs at h with hdir hexists
    · exact ih h
    · cases h
    · have hmade : Touches paths inodes fs { fs with nodes := fs.nodes.insert d .dir } := by
        refine ⟨fun q _ => ?_, fun _ _ => rfl⟩
        by_cases hq : q = d
        · have hnone : fs.nodes.lookup d = none := by
            simp only [pathExists, Bool.or_eq_true, not_or, Bool.not_eq_true,
              Option.isSome_eq_false_iff, Option.isNone_iff_eq_none] at hexists
            exact hexists.2
          rw [hq, HostFs.inode, HostFs.inode, AList.lookup_insert, hnone]
          rfl
        · exact inode_congr (AList.lookup_insert_ne hq)
      exact hmade.trans (ih h)

end HostFs

end IzarraVM
