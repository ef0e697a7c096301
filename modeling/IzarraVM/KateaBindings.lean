import IzarraVM.KateaCommit

/-! Which host path every entry, projection and directory is bound to. -/
namespace IzarraVM.Katea

@[ext] structure Bindings where
  entry : Key → Option PathBuf
  projection : Key → Option PathBuf
  dir : ℕ → Option PathBuf

namespace Bindings

variable (b : Bindings)

def bindFile (key : Key) (path : PathBuf) : Bindings :=
  { b with
    entry := Function.update b.entry key (some path)
    projection := Function.update b.projection key (some path) }

def orBind {K : Type} [DecidableEq K] (m : K → Option PathBuf) (k : K) (path : PathBuf) :
    K → Option PathBuf :=
  if (m k).isSome then m else Function.update m k (some path)

def apply : Act → Bindings
  | .note _ => b
  | .rename r =>
    { entry := Function.update (Function.update b.entry r.oldKey none) r.newKey (some r.newPath)
      projection :=
        if (b.projection r.oldKey).isSome then
          Function.update (Function.update b.projection r.oldKey none) r.newKey (some r.newPath)
        else b.projection
      dir := if r.isDir then Function.update b.dir r.firstCluster (some r.newPath) else b.dir }
  | .delete d =>
    { entry := Function.update b.entry d.key none
      projection := Function.update b.projection d.key none
      dir := if d.isDir then Function.update b.dir d.firstCluster none else b.dir }
  | .mkdir p =>
    { b with entry := orBind b.entry p.key p.path, dir := orBind b.dir p.firstCluster p.path }
  | .stream p => b.bindFile p.key p.path
  | .write p => b.bindFile p.key p.path
  | .reinstall key file _ =>
    { b with projection := Function.update b.projection key (some file.path) }

end Bindings

namespace Facade

variable (f : Facade)

def bindings : Bindings where
  entry key := (f.mirrored.lookup key).map MirrorEntry.hostPath
  projection key := (f.projectedFiles.lookup key).map ProjectedFile.path
  dir d := f.dirPaths.lookup d

section Maps

variable {K V W : Type} [DecidableEq K] (m : AList fun _ : K => V) (k : K)

theorem lookup_insert_map (v : V) (g : V → W) : (fun k' => ((m.insert k v).lookup k').map g) =
    Function.update (fun k' => (m.lookup k').map g) k (some (g v)) := by
  refine Function.eq_update_iff.mpr ⟨?_, fun k' h => ?_⟩
  · rw [AList.lookup_insert]
    rfl
  · rw [AList.lookup_insert_ne h]

theorem lookup_erase_map (g : V → W) : (fun k' => ((m.erase k).lookup k').map g) =
    Function.update (fun k' => (m.lookup k').map g) k none := by
  refine Function.eq_update_iff.mpr ⟨?_, fun k' h => ?_⟩
  · rw [AList.lookup_erase]
    rfl
  · rw [AList.lookup_erase_ne h]

end Maps

variable (key : Key)

@[simp] theorem dropProjected_bindings (old : ProjectedFile) :
    (f.dropProjected key old).bindings =
      { f.bindings with projection := Function.update f.bindings.projection key none } := by
  ext1
  · rfl
  · exact lookup_erase_map f.projectedFiles key ProjectedFile.path
  · rfl

/-- A file that loses a cluster keeps its path. -/
@[simp] theorem displace_bindings (owner : Key) : (f.displace owner).bindings = f.bindings := by
  unfold displace
  cases hold : f.projectedFiles.lookup owner with
  | none => rfl
  | some displaced =>
    ext1
    · rfl
    · refine (lookup_insert_map f.projectedFiles owner _ ProjectedFile.path).trans ?_
      refine Function.update_eq_self_iff.mpr ?_
      rw [hold]
      rfl
    · rfl

@[simp] theorem noteProjectable_bindings (cluster : ℕ) :
    (f.noteProjectable cluster).bindings = f.bindings := by
  unfold noteProjectable
  split_ifs <;> rfl

theorem claimCluster_bindings (p : Facade × Bool) (e : ℕ × ℕ) :
    (claimCluster key p e).1.bindings = p.1.bindings := by
  unfold claimCluster
  dsimp only
  split
  · exact noteProjectable_bindings _ _
  · split_ifs
    · exact noteProjectable_bindings _ _
    · rw [noteProjectable_bindings, displace_bindings]
      rfl

theorem foldl_claimCluster_bindings (chain : List (ℕ × ℕ)) (p : Facade × Bool) :
    (chain.foldl (claimCluster key) p).1.bindings = p.1.bindings := by
  induction chain generalizing p with
  | nil => rfl
  | cons e rest ih => rw [List.foldl_cons, ih, claimCluster_bindings]

@[simp] theorem removeProjection_bindings : (f.removeProjection key).bindings =
    { f.bindings with projection := Function.update f.bindings.projection key none } := by
  unfold removeProjection
  dsimp only
  cases hold : f.projectedFiles.lookup key with
  | none =>
    have hnone : f.bindings.projection key = none := by simp [bindings, hold]
    ext1
    · rfl
    · exact (Function.update_eq_self_iff.mpr hnone.symm).symm
    · rfl
  | some old =>
    exact dropProjected_bindings
      { f with blockedProjectionKeys := f.blockedProjectionKeys.erase key } key old

/-- A projection is installed over whatever the key had before. -/
@[simp] theorem installProjection_bindings (path : PathBuf) (size : ℕ)
    (chain : List ℕ) (extended : Bool) :
    (f.installProjection key path size chain extended).bindings =
      { f.bindings with
        projection := Function.update f.bindings.projection key (some path) } := by
  unfold installProjection
  dsimp only
  have hinsert (g : Facade) (file : ProjectedFile) :
      ({ g with projectedFiles := g.projectedFiles.insert key file } : Facade).bindings =
        { g.bindings with
          projection := Function.update g.bindings.projection key (some file.path) } := by
    ext1
    · rfl
    · exact lookup_insert_map g.projectedFiles key file ProjectedFile.path
    · rfl
  rw [hinsert, foldl_claimCluster_bindings]
  cases hold : f.projectedFiles.lookup key with
  | none => rfl
  | some old =>
    simp only [Option.map_some, Option.getD_some, dropProjected_bindings, Function.update_idem]
    rfl

section Sectors

variable (lba : ℕ)

/-- Holding a sector changes the index of unmapped sectors and nothing else. -/
theorem noteUnmapped_eq : ∃ index total,
    f.noteUnmapped lba = { f with unmappedByCluster := index, unmappedSectors := total } := by
  unfold noteUnmapped
  split
  · exact ⟨_, _, rfl⟩
  · dsimp only
    split_ifs <;> exact ⟨_, _, rfl⟩

theorem acknowledge_eq : ∃ index total, f.acknowledge lba =
    { f with
      store := f.store.acknowledge lba
      unmappedByCluster := index
      unmappedSectors := total } := by
  unfold acknowledge forgetUnmapped
  split
  · exact ⟨_, _, rfl⟩
  · split <;> exact ⟨_, _, rfl⟩

theorem noteMetadataWrite_eq : ∃ dirty clusters, (f.noteMetadataWrite lba).2 =
    { f with directoryDirty := dirty, fatDirtyClusters := clusters } := by
  unfold noteMetadataWrite
  dsimp only
  split_ifs <;> exact ⟨_, _, rfl⟩

theorem writeSector_eq (data : Sector) (faults : ℕ → SpillFaults) :
    ∃ dirty clusters index total, f.writeSector lba data faults =
      { f with
        store := f.store.insert lba data faults
        batchLbas := f.batchLbas.insert lba
        directoryDirty := dirty
        fatDirtyClusters := clusters
        unmappedByCluster := index
        unmappedSectors := total } := by
  obtain ⟨dirty, clusters, hnote⟩ := f.noteMetadataWrite_eq lba
  unfold writeSector
  dsimp only
  rw [hnote]
  split_ifs
  · obtain ⟨index, total, hheld⟩ := noteUnmapped_eq _ lba
    exact ⟨_, _, index, total, hheld⟩
  · exact ⟨_, _, _, _, rfl⟩

theorem noteUnmapped_bindings : (f.noteUnmapped lba).bindings = f.bindings := by
  obtain ⟨index, total, h⟩ := f.noteUnmapped_eq lba
  rw [h]
  rfl

theorem acknowledge_bindings : (f.acknowledge lba).bindings = f.bindings := by
  obtain ⟨index, total, h⟩ := f.acknowledge_eq lba
  rw [h]
  rfl

theorem writeSector_bindings (data : Sector) (faults : ℕ → SpillFaults) :
    (f.writeSector lba data faults).bindings = f.bindings := by
  obtain ⟨dirty, clusters, index, total, h⟩ := f.writeSector_eq lba data faults
  rw [h]
  rfl

end Sectors

theorem foldl_bindings {α : Type} {g : Facade → α → Facade}
    (hg : ∀ f a, (g f a).bindings = f.bindings) (l : List α) (f : Facade) :
    (l.foldl g f).bindings = f.bindings := by
  induction l generalizing f with
  | nil => rfl
  | cons a rest ih => rw [List.foldl_cons, ih, hg]

/-- Bookkeeping binds nothing. -/
@[simp] theorem note_bindings (n : Note) : (f.note n).bindings = f.bindings := by
  cases n with
  | sweep live => exact foldl_bindings (g := unblock) (fun _ _ => rfl) _ _
  | watermark key gather =>
    simp only [note]
    cases hm : f.mirrored.lookup key with
    | none => rfl
    | some m =>
      ext1
      · refine (lookup_insert_map f.mirrored key _ MirrorEntry.hostPath).trans ?_
        refine Function.update_eq_self_iff.mpr ?_
        rw [hm]
        rfl
      · rfl
      · rfl
  | hold lba => exact noteUnmapped_bindings f lba
  | _ => rfl

variable {f}

@[simp] theorem mirror_bindings (key : Key) (m : MirrorEntry) : (f.mirror key m).bindings =
    { f.bindings with entry := Function.update f.bindings.entry key (some m.hostPath) } := by
  ext1
  · exact lookup_insert_map f.mirrored key m MirrorEntry.hostPath
  · rfl
  · rfl

@[simp] theorem unmirror_bindings (key : Key) : (f.unmirror key).bindings =
    { f.bindings with entry := Function.update f.bindings.entry key none } := by
  ext1
  · exact lookup_erase_map f.mirrored key MirrorEntry.hostPath
  · rfl
  · rfl

theorem streamed_bindings (p : PendingStream) (extent : Extent) (spans : Spans) :
    (f.streamed p extent spans).bindings = f.bindings.apply (.stream p) := by
  refine (mirror_bindings p.key _).trans ?_
  rw [installProjection_bindings, foldl_bindings acknowledge_bindings]
  rfl

theorem written_bindings (p : PendingWrite) :
    (f.written p).bindings = f.bindings.apply (.write p) := by
  refine (mirror_bindings p.key _).trans ?_
  rw [installProjection_bindings]
  rfl

theorem lookup_insert_dir (g : Facade) (c : ℕ) (path : PathBuf) :
    (fun d => (g.dirPaths.insert c path).lookup d) =
      Function.update g.bindings.dir c (some path) := by
  have hmap := lookup_insert_map g.dirPaths c path id
  simp only [Option.map_id_fun, id_eq] at hmap
  exact hmap

@[simp] theorem moveDirectory_bindings (c : ℕ) (path : PathBuf) :
    (f.moveDirectory c path).bindings =
      { f.bindings with dir := Function.update f.bindings.dir c (some path) } := by
  ext1
  · rfl
  · rfl
  · exact lookup_insert_dir f c path

@[simp] theorem forgetDirectory_bindings (c : ℕ) : (f.forgetDirectory c).bindings =
    { f.bindings with dir := Function.update f.bindings.dir c none } := by
  have hmap := lookup_erase_map f.dirPaths c id
  simp only [Option.map_id_fun, id_eq] at hmap
  ext1
  · rfl
  · rfl
  · exact hmap

theorem deleted_bindings (d : PendingDelete) :
    (f.deleted d).bindings = f.bindings.apply (.delete d) := by
  unfold deleted
  dsimp only
  split_ifs with hdir
  · rw [forgetDirectory_bindings, removeProjection_bindings, unmirror_bindings]
    simp only [Bindings.apply, hdir, if_true]
    rfl
  · rw [removeProjection_bindings, unmirror_bindings]
    simp only [Bindings.apply, hdir]
    rfl

/-- The projection moves with the entry, when there is one. -/
theorem moveProjection_bindings (r : PendingRename) : (f.moveProjection r).bindings =
    { f.bindings with projection := (f.bindings.apply (.rename r)).projection } := by
  unfold moveProjection
  cases hold : f.projectedFiles.lookup r.oldKey with
  | none =>
    have hnone : f.bindings.projection r.oldKey = none := by simp [bindings, hold]
    simp only [removeProjection_bindings, Bindings.apply, hnone, Option.isSome_none,
      Bool.false_eq_true, if_false]
    rw [← hnone, Function.update_eq_self]
  | some p =>
    have hsome : f.bindings.projection r.oldKey = some p.path := by simp [bindings, hold]
    simp only [installProjection_bindings, removeProjection_bindings, Bindings.apply, hsome,
      Option.isSome_some, if_true]

theorem renamed_bindings (r : PendingRename) :
    (f.renamed r).bindings = f.bindings.apply (.rename r) := by
  unfold renamed
  dsimp only
  split_ifs with hdir
  · rw [moveDirectory_bindings, mirror_bindings, unmirror_bindings, moveProjection_bindings]
    simp only [Bindings.apply, hdir, if_true]
    rfl
  · rw [mirror_bindings, unmirror_bindings, moveProjection_bindings]
    simp only [Bindings.apply, hdir]
    rfl

@[simp] theorem bindDirectory_bindings (c : ℕ) (path : PathBuf) :
    (f.bindDirectory c path).bindings =
      { f.bindings with dir := Bindings.orBind f.bindings.dir c path } := by
  have hdir : (f.bindings.dir c).isSome ↔ c ∈ f.dirPaths := AList.lookup_isSome
  unfold bindDirectory Bindings.orBind
  simp only [hdir]
  split_ifs
  · rfl
  · ext1
    · rfl
    · rfl
    · exact lookup_insert_dir f c path

@[simp] theorem mirrorNew_bindings (key : Key) (m : MirrorEntry) :
    (f.mirrorNew key m).bindings =
      { f.bindings with entry := Bindings.orBind f.bindings.entry key m.hostPath } := by
  have hentry : (f.bindings.entry key).isSome ↔ key ∈ f.mirrored := by
    rw [bindings, Option.isSome_map, AList.lookup_isSome]
  unfold mirrorNew Bindings.orBind
  simp only [hentry]
  split_ifs
  · rfl
  · exact mirror_bindings key m

theorem madeDir_bindings (p : PendingDir) :
    (f.madeDir p).bindings = f.bindings.apply (.mkdir p) := by
  rw [madeDir, mirrorNew_bindings, bindDirectory_bindings]
  rfl

end Facade

def World.bindings (w : World) : Bindings := w.facade.bindings

def Facade.core (f : Facade) := (f.geo, f.store, f.unmappedByCluster, f.unmappedSectors,
  f.projectedFiles, f.projectedClusters)

inductive Facade.Done (f : Facade) : Act → Facade → Prop where
  | note (n : Note) : f.Done (.note n) (f.note n)
  | rename (r : PendingRename) : f.Done (.rename r) (f.renamed r)
  | delete (d : PendingDelete) : f.Done (.delete d) (f.deleted d)
  | mkdir (p : PendingDir) : f.Done (.mkdir p) (f.madeDir p)
  | stream (p : PendingStream) (extent : Extent) (spans : Spans) :
      f.Done (.stream p) (f.streamed p extent spans)
  | write (p : PendingWrite) : f.Done (.write p) (f.written p)
  | reinstall (key : Key) (file : ProjectedFile) (chain : List ℕ) :
      f.Done (.reinstall key file chain)
        (f.installProjection key file.path file.size chain file.extendedPastDirectory)

/-- An act first changes handles, counts and marks at most; then it is carried out or given up. -/
theorem exec_done (plan : Plan) (w : World) (a : Act) :
    ∃ g : Facade, ((w.exec plan a).2.facade = g ∨ g.Done a (w.exec plan a).2.facade) ∧
      g.core = w.facade.core ∧ g.bindings = w.bindings := by
  cases a with
  | note n => exact ⟨_, Or.inr (.note n), rfl, rfl⟩
  | rename r =>
    simp only [World.exec, World.renameEntry]
    split
    · exact ⟨_, Or.inl rfl, rfl, rfl⟩
    · exact ⟨_, Or.inr (.rename r), rfl, rfl⟩
  | delete d =>
    simp only [World.exec, World.deleteEntry]
    split_ifs
    · exact ⟨_, Or.inl rfl, rfl, rfl⟩
    · exact ⟨_, Or.inr (.delete d), rfl, rfl⟩
    · exact ⟨_, Or.inl rfl, rfl, rfl⟩
    · exact ⟨_, Or.inr (.delete d), rfl, rfl⟩
  | mkdir p =>
    simp only [World.exec, World.makeDir]
    split_ifs
    · split
      · exact ⟨_, Or.inl rfl, rfl, rfl⟩
      · exact ⟨_, Or.inr (.mkdir p), rfl, rfl⟩
    · exact ⟨_, Or.inr (.mkdir p), rfl, rfl⟩
  | stream p =>
    have hopen (w : World) : (w.openHandle plan p.path).2.facade.core = w.facade.core ∧
        (w.openHandle plan p.path).2.bindings = w.bindings := by
      unfold World.openHandle
      dsimp only
      split
      · exact ⟨rfl, rfl⟩
      · split <;> exact ⟨rfl, rfl⟩
    simp only [World.exec, streamFileOverlay]
    split
    · next w' hread =>
      have hfacade : w'.facade = w.facade := (congrArg (fun q => q.2.facade) hread).symm
      exact ⟨_, Or.inl hfacade, rfl, rfl⟩
    · next spans w' hread =>
      have hfacade : w'.facade = w.facade := (congrArg (fun q => q.2.facade) hread).symm
      have hopened := hopen w'
      rw [World.bindings, World.bindings, hfacade] at hopened
      split
      · next w'' hhandle =>
        rw [hhandle] at hopened
        exact ⟨_, Or.inl rfl, hopened⟩
      · next inode w'' hhandle =>
        rw [hhandle] at hopened
        split
        · exact ⟨_, Or.inl rfl, hopened⟩
        · exact ⟨_, Or.inr (.stream p _ _), hopened⟩
  | write p =>
    simp only [World.exec, World.writeFile]
    split
    · exact ⟨_, Or.inr (.write p), rfl, rfl⟩
    · exact ⟨_, Or.inl rfl, rfl, rfl⟩
  | reinstall key file chain => exact ⟨_, Or.inr (.reinstall key file chain), rfl, rfl⟩

/-- An act binds what it says, or nothing. -/
theorem exec_bindings (plan : Plan) (w : World) (a : Act) :
    (w.exec plan a).2.bindings = w.bindings ∨
      (w.exec plan a).2.bindings = w.bindings.apply a := by
  obtain ⟨g, hleft | hdone, -, hb⟩ := exec_done plan w a
  · exact Or.inl ((congrArg Facade.bindings hleft).trans hb)
  · refine Or.inr ?_
    unfold World.bindings at hb ⊢
    rw [← hb]
    generalize (w.exec plan a).2.facade = f' at hdone ⊢
    cases hdone with
    | note n => exact Facade.note_bindings _ n
    | rename r => exact Facade.renamed_bindings r
    | delete d => exact Facade.deleted_bindings d
    | mkdir p => exact Facade.madeDir_bindings p
    | stream p extent spans => exact Facade.streamed_bindings p extent spans
    | write p => exact Facade.written_bindings p
    | reinstall key file chain => exact Facade.installProjection_bindings _ _ _ _ _ _

end IzarraVM.Katea
