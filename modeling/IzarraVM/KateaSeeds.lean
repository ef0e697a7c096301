import IzarraVM.KateaSession
import IzarraVM.KateaAssigned
import IzarraVM.KateaBands

/-! The mounted folder, and the bindings a session starts from. -/
namespace IzarraVM.Katea

def FileSource.hostPath? : FileSource → Option PathBuf
  | .inMemory _ => none
  | .hostFile path _ => some path

variable (d : TreeDir)

def childPaths : List PathBuf :=
  d.files.filterMap (fun f => f.source.hostPath?) ++ d.subdirs.map fun s => s.dir.hostPath

theorem mirrorsOf_paths :
    (mirrorsOf d).map (fun e => e.2.hostPath) = childPaths d := by
  simp only [mirrorsOf, childPaths, hostFilesOf, List.map_append, List.map_map, List.map_filterMap]
  congr 1
  refine List.filterMap_congr fun f _ => ?_
  cases f.source <;> rfl

theorem hostPath_bare : d.bare.hostPath = d.hostPath := by
  cases d
  rfl

theorem childPaths_bare : childPaths d.bare = childPaths d := by
  simp only [childPaths, TreeDir.bare_files, TreeDir.bare_subdirs, List.filterMap_map, List.map_map]
  congr 1
  exact List.map_congr_left fun s _ => hostPath_bare s.dir

structure Ruled (Q : List Component → Prop) (d : TreeDir) : Prop where
  names : ∃ names : List Component, Q names ∧ (childPaths d).Perm (names.map fun n => d.hostPath ++ [n])
  fits : ∀ f ∈ d.files, f.source.len < 2^32

def FolderEntry.name : FolderEntry → Component
  | .file name _ => name
  | .dir name _ => name

mutual
def FolderEntry.Listed (Q : List Component → Prop) : FolderEntry → Prop
  | .file _ _ => True
  | .dir _ entries => Q (entries.map FolderEntry.name) ∧ FolderEntry.ListedIn Q entries
def FolderEntry.ListedIn (Q : List Component → Prop) : List FolderEntry → Prop
  | [] => True
  | e :: rest => e.Listed Q ∧ FolderEntry.ListedIn Q rest
end

mutual
theorem FolderEntry.listed_of_forall {Q : List Component → Prop} (hQ : ∀ l, Q l) :
    ∀ e : FolderEntry, e.Listed Q
  | .file _ _ => trivial
  | .dir _ entries => ⟨hQ _, FolderEntry.listedIn_of_forall hQ entries⟩
theorem FolderEntry.listedIn_of_forall {Q : List Component → Prop} (hQ : ∀ l, Q l) :
    ∀ l : List FolderEntry, FolderEntry.ListedIn Q l
  | [] => trivial
  | e :: rest => ⟨FolderEntry.listed_of_forall hQ e, FolderEntry.listedIn_of_forall hQ rest⟩
end

structure Mount where
  mbr : Sector
  vbr : Sector
  root : PathBuf
  systemFiles : List SystemFile
  entries : List FolderEntry

/-- A property of the files of every directory is one of all files. -/
theorem allFiles_of_walk {P : TreeFile → Prop} (d : TreeDir) (isRoot : Bool)
    (h : ∀ p ∈ walk isRoot d, ∀ f ∈ p.2.files, P f) : d.AllFiles P := by
  induction d using TreeDir.induct generalizing isRoot with
  | dir d ih =>
    rw [walk_eq] at h
    obtain ⟨files, subdirs, first, count, parent, path⟩ := d
    refine ⟨h _ List.mem_cons_self, (TreeDir.allFilesIn_iff P subdirs).mpr fun s hs => ?_⟩
    refine ih s hs false fun p hp => h p (List.mem_cons_of_mem _ ?_)
    exact List.mem_flatMap.mpr ⟨s, hs, hp⟩

section Walk

variable {Q : List Component → Prop} (hQ : ∀ l l' : List Component, l.Subperm l' → Q l' → Q l)

def Found.paths (found : Found) : List PathBuf :=
  found.files.filterMap (fun f => f.source.hostPath?) ++ found.subdirs.map fun s => s.dir.hostPath

structure Found.Ruled (Q : List Component → Prop) (host : PathBuf) (bound : List Component)
    (found : Found) : Prop where
  names : ∃ names : List Component, names.Subperm bound ∧ found.paths.Perm (names.map fun n => host ++ [n])
  fits : ∀ f ∈ found.files, f.source.len < 2^32
  below : ∀ s ∈ found.subdirs, ∀ p ∈ walk false s.dir, Katea.Ruled Q p.2

variable {host : PathBuf} {bound : List Component} {found : Found}

theorem Found.Ruled.mono (h : found.Ruled Q host bound) {more : List Component}
    (hmore : bound.Subperm more) : found.Ruled Q host more := by
  obtain ⟨⟨names, hsub, hpaths⟩, hfits, hbelow⟩ := h
  exact ⟨⟨names, hsub.trans hmore, hpaths⟩, hfits, hbelow⟩

theorem Found.Ruled.file (h : found.Ruled Q host bound) (short : Name83) (name : Component)
    {len : ℕ} (hlen : len < u32Max) (used : List Name83) :
    Found.Ruled Q host (bound ++ [name])
      ⟨found.files ++ [⟨short, .hostFile (host ++ [name]) len, 0, 0⟩], found.subdirs, used⟩ := by
  obtain ⟨⟨names, hsub, hpaths⟩, hfits, hbelow⟩ := h
  refine ⟨⟨names ++ [name], hsub.append (List.Subperm.refl _), ?_⟩, ?_, hbelow⟩
  · have hone : ([⟨short, .hostFile (host ++ [name]) len, 0, 0⟩] : List TreeFile).filterMap
        (fun f => f.source.hostPath?) = [host ++ [name]] := rfl
    rw [Found.paths, List.filterMap_append, hone, List.map_append, List.append_assoc]
    refine (List.perm_append_comm.append_left _).trans ?_
    rw [← List.append_assoc]
    exact hpaths.append_right _
  · intro f hf
    rcases List.mem_append.mp hf with hf | hf
    · exact hfits f hf
    · rw [List.mem_singleton.mp hf]
      exact hlen.trans (by decide)

theorem Found.Ruled.dir (h : found.Ruled Q host bound) (short : Name83) (name : Component)
    {sub : TreeDir} (hpath : sub.hostPath = host ++ [name])
    (hsub : ∀ p ∈ walk false sub, Katea.Ruled Q p.2) (used : List Name83) :
    Found.Ruled Q host (bound ++ [name]) ⟨found.files, found.subdirs ++ [⟨short, sub⟩], used⟩ := by
  obtain ⟨⟨names, hnames, hpaths⟩, hfits, hbelow⟩ := h
  refine ⟨⟨names ++ [name], hnames.append (List.Subperm.refl _), ?_⟩, hfits, ?_⟩
  · rw [Found.paths, List.map_append, List.map_singleton, hpath, List.map_append, ← List.append_assoc]
    exact hpaths.append_right _
  · intro s hs
    rcases List.mem_append.mp hs with hs | hs
    · exact hbelow s hs
    · rw [List.mem_singleton.mp hs]
      exact hsub

include hQ

/-- What is found makes a directory, and everything below it is as found. -/
theorem Found.Ruled.toDir (h : found.Ruled Q host bound) (hbound : Q bound) (isRoot : Bool) :
    ∀ p ∈ walk isRoot (.mk found.files found.subdirs 0 0 0 host), Katea.Ruled Q p.2 := by
  obtain ⟨⟨names, hnames, hpaths⟩, hfits, hbelow⟩ := h
  intro p hp
  rw [walk_eq] at hp
  rcases List.mem_cons.mp hp with rfl | hp
  · exact ⟨⟨names, hQ _ _ hnames hbound, hpaths⟩, hfits⟩
  · obtain ⟨s, hs, hp⟩ := List.mem_flatMap.mp hp
    exact hbelow s hs p hp

theorem walkInto_ruled (depth : ℕ) (entries : List FolderEntry)
    (hlisted : FolderEntry.ListedIn Q entries) (h : found.Ruled Q host bound) :
    (walkInto depth host found entries).Ruled Q host (bound ++ entries.map FolderEntry.name) := by
  induction depth generalizing host bound found entries with
  | zero => exact h.mono (List.sublist_append_left _ _).subperm
  | succ depth ih =>
    simp only [walkInto]
    induction entries generalizing found bound with
    | nil => simpa using h
    | cons e rest ihe =>
      obtain ⟨he, hrest⟩ := hlisted
      rw [List.map_cons, List.append_cons, List.foldl_cons]
      refine ihe hrest ?_
      cases e with
      | file name len =>
        simp only [walkEntry]
        split_ifs with hlen
        · exact h.mono (List.sublist_append_left _ _).subperm
        · exact h.file _ name (Nat.lt_of_not_le hlen) _
      | dir name entries =>
        have hempty : Found.Ruled Q (host ++ [name]) [] ⟨[], [], []⟩ :=
          ⟨⟨[], List.Subperm.refl _, .nil⟩, by simp, by simp⟩
        have hinner := (ih entries he.2 hempty).toDir hQ (by simpa using he.1) false
        exact h.dir _ name rfl hinner _

end Walk

namespace Mount

variable (m : Mount)

def rootNames : List Component :=
  (if (m.systemFiles.filter inDosFolder).isEmpty then [] else [['D', 'O', 'S']]) ++
    m.entries.map FolderEntry.name

def Listed (Q : List Component → Prop) : Prop :=
  Q m.rootNames ∧ FolderEntry.ListedIn Q m.entries

variable {m} {Q : List Component → Prop}

theorem overlay_ruled (root : PathBuf) (systemFiles : List SystemFile) (hnil : Q []) :
    (overlay root systemFiles).Ruled Q root
      (if (systemFiles.filter inDosFolder).isEmpty then [] else [['D', 'O', 'S']]) := by
  have hsystem (l : List SystemFile) : ∀ f ∈ l.map systemTreeFile, f.source.len < 2^32 := by
    intro f hf
    obtain ⟨g, -, rfl⟩ := List.mem_map.mp hf
    exact g.fits
  have hpaths (l : List SystemFile) :
      (l.map systemTreeFile).filterMap (fun f => f.source.hostPath?) = [] := by
    rw [List.filterMap_map]
    exact List.filterMap_eq_nil_iff.mpr fun _ _ => rfl
  have hdos : ∀ p ∈ walk false (.mk ((systemFiles.filter inDosFolder).map systemTreeFile) [] 0 0 0
      (root ++ [['D', 'O', 'S']])), Ruled Q p.2 := by
    intro p hp
    rw [walk_eq] at hp
    rw [List.mem_singleton.mp hp]
    refine ⟨⟨[], hnil, ?_⟩, hsystem _⟩
    rw [childPaths, TreeDir.files, hpaths]
    exact .nil
  have hempty : Found.Ruled Q root [] ⟨(systemFiles.filter fun f => !inDosFolder f).map systemTreeFile,
      [], ((systemFiles.filter fun f => !inDosFolder f).map systemTreeFile).map TreeFile.name⟩ :=
    ⟨⟨[], List.Subperm.refl _, by rw [Found.paths, hpaths]; exact .nil⟩, hsystem _, by simp⟩
  simp only [overlay, List.isEmpty_map]
  split_ifs
  · simpa using hempty
  · exact hempty.dir dosName ['D', 'O', 'S'] rfl hdos _

theorem buildTree_ruled (hQ : ∀ l l' : List Component, l.Subperm l' → Q l' → Q l)
    (h : m.Listed Q) :
    ∀ p ∈ walk true (buildTree m.root m.systemFiles m.entries), Ruled Q p.2 := by
  have hnil : Q [] := hQ _ _ List.nil_subperm h.1
  exact (walkInto_ruled hQ maxDepth m.entries h.2 (overlay_ruled m.root m.systemFiles hnil)).toDir
    hQ h.1 true

theorem listed_true (m : Mount) : m.Listed fun _ => True :=
  ⟨trivial, FolderEntry.listedIn_of_forall (fun _ => trivial) m.entries⟩

def tree (m : Mount) : HostTree where
  root := buildTree m.root m.systemFiles m.entries
  filesFit := allFiles_of_walk _ true fun p hp =>
    (buildTree_ruled (fun _ _ _ => id) (listed_true m) p hp).fits

def mount (m : Mount) (fuel : ℕ) : Option (Except String Facade) :=
  match allocate m.tree fuel with
  | none => none
  | some (.error e) => some (.error e)
  | some (.ok (root, geo)) => some (.ok (.new m.mbr m.vbr root geo m.systemFiles))

/-- A mounted facade is that of the allocated tree. -/
theorem mount_ok {fuel : ℕ} {f : Facade} (h : m.mount fuel = some (.ok f)) :
    ∃ root geo, root.bare = m.tree.root.bare ∧ f = .new m.mbr m.vbr root geo m.systemFiles := by
  unfold mount at h
  cases halloc : allocate m.tree fuel with
  | none => rw [halloc] at h; cases h
  | some result =>
    rw [halloc] at h
    cases result with
    | error e => cases h
    | ok p =>
      cases h
      obtain ⟨-, hroot⟩ := allocate_ok halloc
      refine ⟨p.1, p.2, ?_, rfl⟩
      rw [hroot]
      exact assignDir_bare _ _ _ _ _

end Mount

def start (f : Facade) (host : Host) : Trail := ⟨⟨f, host, ⟨0, 0⟩, 0⟩, []⟩

section Seeds

variable {root : TreeDir} {geo : Geometry} {mbr vbr : Sector} {systemFiles : List SystemFile}
  {path : PathBuf}

/-- An entry is bound at the mount to a path of its directory. -/
theorem new_entry {key : Key}
    (h : (Facade.new mbr vbr root geo systemFiles).bindings.entry key = some path) :
    ∃ e ∈ seedMirrored root, e.1 = key ∧ e.2.hostPath = path := by
  obtain ⟨e, he, rfl⟩ := Option.map_eq_some_iff.mp h
  rcases mem_of_lookup_insertAll he with hmem | hempty
  · exact ⟨(key, e), hmem, rfl, rfl⟩
  · cases hempty

theorem new_dir {d : ℕ}
    (h : (Facade.new mbr vbr root geo systemFiles).bindings.dir d = some path) :
    ∃ p ∈ walk true root, p.2.hostPath = path := by
  rcases mem_of_lookup_insertAll h with hmem | hempty
  · obtain ⟨p, hp, heq⟩ := List.mem_map.mp hmem
    exact ⟨p, hp, congrArg Prod.snd heq⟩
  · cases hempty

/-- A projected file is bound as its entry is. -/
theorem new_projection {key : Key}
    (h : (Facade.new mbr vbr root geo systemFiles).bindings.projection key = some path) :
    ∃ e ∈ seedMirrored root, e.1 = key ∧ e.2.hostPath = path := by
  obtain ⟨file, hfile, rfl⟩ := Option.map_eq_some_iff.mp h
  rcases mem_of_lookup_insertAll hfile with hmem | hempty
  · obtain ⟨p, hp, hmem⟩ := List.mem_flatMap.mp hmem
    obtain ⟨⟨key', path, f⟩, hf, heq⟩ := List.mem_map.mp hmem
    cases heq
    refine ⟨(key, ⟨path, f.firstCluster, false, none, none⟩), ?_, rfl, rfl⟩
    refine List.mem_flatMap.mpr ⟨p, hp, List.mem_append_left _ ?_⟩
    exact List.mem_map.mpr ⟨_, hf, rfl⟩
  · cases hempty

theorem mem_childPaths_of_seed {e : Key × MirrorEntry} (h : e ∈ seedMirrored root) :
    ∃ p ∈ walk true root, e.2.hostPath ∈ childPaths p.2 := by
  obtain ⟨p, hp, he⟩ := List.mem_flatMap.mp h
  refine ⟨p, hp, ?_⟩
  rw [← mirrorsOf_paths]
  exact List.mem_map_of_mem he

end Seeds

section Empty

def emptyFolder : Mount := ⟨zeroSector, zeroSector, [['m']], [], []⟩

def emptyFacade : Facade :=
  .new zeroSector zeroSector
    (assignDir true 0 rootCluster (8*sectorBytes) emptyFolder.tree.root).1
    (exactGeometry (treeClusterDemand emptyFolder.tree) 8) []

theorem emptyFolder_mount : emptyFolder.mount 8 = some (.ok emptyFacade) := rfl

def emptyHost : Host := ⟨⟨AList.singleton [['m']] .dir, fun _ => [], 0⟩, 0⟩

def Plan.calm : Plan where
  readFault _ := none
  hostFaults _ := none
  shuffle _ _ l := l
  shuffle_perm _ _ l := .refl l
  fingerprint _ := 0
  chainId _ := 0
  memoHeld _ _ := false
  fuel := 4

def shortName (bytes : List UInt8) : Name83 := fun i => bytes.getD i.val 0x20

def fileEntries (entries : List (Name83 × UInt8)) : Sector := fun i =>
  match entries[i.val/32]? with
  | none => 0
  | some (name, cluster) =>
    if h : i.val%32 < 11 then name ⟨i.val%32, h⟩
    else if i.val%32 = 11 then 0x20
    else if i.val%32 = 26 then cluster
    else 0

def Event.writeRoot (entries : List (Name83 × UInt8)) : Event :=
  .writeSector (emptyFacade.clusterToLba rootCluster 0) (fileEntries entries)
    fun _ => ⟨none, none, none⟩

def emptySession (events : List Event) : Trail := session .calm (start emptyFacade emptyHost) events

end Empty

end IzarraVM.Katea
