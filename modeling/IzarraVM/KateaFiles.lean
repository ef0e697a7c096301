import IzarraVM.KateaProjections

/-! The host files of a session: an act changes the paths that it names, and no others. -/
namespace IzarraVM.Katea
open HostFs

/-- The first cluster reads free, and no live entry claims it. -/
def World.Gone (w : World) (c : ℕ) : Prop := (c < 2 ∨ (w.fatEntryNow c).run = 0) ∧
  ∀ d ∈ w.facade.dirPaths.keys, ∀ p ∈ (Facade.scanDir w.facade.stored w.facade w.files d).run,
    ∀ l ∈ Facade.liveOf w.facade.systemNames p, l.firstCluster ≠ c

instance (w : World) (c : ℕ) : Decidable (w.Gone c) := by
  unfold World.Gone
  infer_instance

/-- The name is not that of another file, unless that file is gone. -/
def World.OwnName (w : World) (key : Key) (firstCluster : ℕ) : Prop :=
  ∀ m ∈ w.facade.mirrored.lookup key, m.firstCluster = firstCluster ∨ w.Gone m.firstCluster

instance (w : World) (key : Key) (c : ℕ) : Decidable (w.OwnName key c) := by
  unfold World.OwnName
  infer_instance

/-- A rename moves a file and not a directory, a file is written under a name of its own, and the
temporary file of a write is nobody's. -/
def Settled (w : World) : Act → Prop
  | .rename r => w.host.fs.nodes.lookup r.oldPath ≠ some .dir
  | .stream p => w.OwnName p.key p.firstCluster
  | .write p => w.OwnName p.key p.firstCluster ∧ ∀ tmp ∈ tempPath p.path,
      ∀ k ∈ w.facade.mirrored.keys ++ w.facade.projectedFiles.keys, ¬ w.bindings.Owns k tmp
  | _ => True

instance (w : World) : (a : Act) → Decidable (Settled w a)
  | .rename r => inferInstanceAs (Decidable (w.host.fs.nodes.lookup r.oldPath ≠ some .dir))
  | .stream p => inferInstanceAs (Decidable (w.OwnName p.key p.firstCluster))
  | .write _ => inferInstanceAs (Decidable (_ ∧ _))
  | .note _ | .delete _ | .mkdir _ | .reinstall .. => isTrue trivial

/-- The inodes that a file written under this path may have. -/
def World.inodesAt (w : World) (path : PathBuf) : List ℕ :=
  w.host.fs.nextInode ::
    ((w.host.fs.inode path).toList ++ (w.facade.hostWriteHandles.lookup path).toList)

def Act.inodes (w : World) : Act → List ℕ
  | .stream p => w.inodesAt p.path
  | .write p => (tempPath p.path).toList.flatMap w.inodesAt
  | _ => []

/-- No path that the act does not name has an inode that it may write. -/
def Unlinked (w : World) (a : Act) : Prop :=
  ∀ q ∈ w.host.fs.nodes.keys, q ∉ a.hostPaths → ∀ i ∈ w.host.fs.inode q, i ∉ a.inodes w

instance (w : World) (a : Act) : Decidable (Unlinked w a) := by
  unfold Unlinked
  infer_instance

section Exec

variable {plan : Plan} (hfaults : plan.hostFaults.Harmless) {paths : List PathBuf} {inodes : List ℕ}
include hfaults

theorem writeSpans_touches {inode : ℕ} (hi : inode ∈ inodes) (spans : List (ℕ × List UInt8))
    (host : Host) :
    Touches paths inodes host.fs (writeSpans plan.hostFaults inode spans host).2.fs := by
  induction spans generalizing host with
  | nil => exact .refl
  | cons span rest ih =>
    rw [writeSpans]
    rcases host.attemptUnit_cases hfaults fun fs => some (fs.writeAt inode span.1 span.2)
      with hop | ⟨fs, hfs, hop⟩
    · rw [hop]
      exact .refl
    · rw [hop]
      cases hfs
      exact (setData_touches hi _).trans (ih ⟨host.fs.writeAt inode span.1 span.2, host.ops+1⟩)

theorem writeThrough_touches {inode : ℕ} (hi : inode ∈ inodes) (spans : List (ℕ × List UInt8))
    (extent : Extent) (host : Host) :
    Touches paths inodes host.fs (writeThrough plan.hostFaults inode spans extent host).2.fs := by
  have hspans : Touches paths inodes _ _ := writeSpans_touches hfaults hi spans host
  unfold writeThrough
  split
  · next host' heq =>
    rw [heq] at hspans
    exact hspans
  · next host' heq =>
    rw [heq] at hspans
    split_ifs
    · rcases host'.attemptUnit_cases hfaults fun fs => some (fs.setLen inode extent.size)
        with hop | ⟨fs, hfs, hop⟩
      · rw [hop]
        exact hspans
      · rw [hop]
        cases hfs
        exact hspans.trans (setData_touches hi _)
    · exact hspans

theorem openHandle_touches (w : World) (path : PathBuf) :
    Touches [path] (w.inodesAt path) w.host.fs (w.openHandle plan path).2.host.fs ∧
      ∀ i ∈ (w.openHandle plan path).1, i ∈ w.inodesAt path := by
  unfold World.openHandle
  dsimp only
  split
  · next inode hlookup =>
    refine ⟨.refl, fun i hi => ?_⟩
    cases hi
    split_ifs at hlookup
    · cases hlookup
    · simp [World.inodesAt, hlookup]
  · rcases w.host.attempt_cases hfaults fun fs => fs.openWrite path with hop | ⟨i, fs, hfs, hop⟩
    · rw [hop]
      exact ⟨.refl, nofun⟩
    · rw [hop]
      obtain ⟨hopened, -, hi⟩ := openWrite_touches List.mem_cons_self List.mem_cons_self hfs
      refine ⟨hopened, fun i' hi' => ?_⟩
      cases hi'
      rcases hi with hi | rfl
      · simp [World.inodesAt, hi]
      · exact List.mem_cons_self

theorem stream_touches (w : World) (p : PendingStream) :
    Touches [p.path] (w.inodesAt p.path) w.host.fs (streamFileOverlay plan w p).2.host.fs := by
  unfold streamFileOverlay
  dsimp only
  split
  · next w' heq =>
    rw [show w'.host = w.host from (congrArg (fun q => q.2.host) heq).symm]
    exact .refl
  · next spans w' heq =>
    have hw' : (w.read _).2 = w' := congrArg Prod.snd heq
    subst hw'
    obtain ⟨hopened, hinode⟩ := openHandle_touches hfaults (w.read _).2 p.path
    split
    · next w'' hopen =>
      rw [hopen] at hopened
      exact hopened
    · next inode w'' hopen =>
      rw [hopen] at hopened hinode
      split
      all_goals
        next host hthrough =>
        rw [← show _ = host from congrArg Prod.snd hthrough]
        exact hopened.trans (writeThrough_touches hfaults (hinode inode rfl) _ _ _)

/-- A write replaces its file by a new one, made under the temporary name. -/
theorem atomicWrite_touches (host : Host) (path : PathBuf) (data : List UInt8)
    (htmp : ∀ tmp ∈ tempPath path, host.fs.nextInode ∈ inodes ∧ ∀ i ∈ host.fs.inode tmp, i ∈ inodes) :
    Touches (path :: (tempPath path).toList) inodes host.fs
      (atomicWrite plan.hostFaults host path data).2.fs := by
  unfold atomicWrite
  cases htemp : tempPath path with
  | none => exact .refl
  | some tmp =>
    have hmem : tmp ∈ path :: (some tmp).toList := by simp
    obtain ⟨hnext, hinode⟩ := htmp tmp htemp
    dsimp only
    rcases host.attemptUnit_cases hfaults fun fs => fs.write tmp data with hop | ⟨fs, hfs, hop⟩
    · rw [hop]
      exact .refl
    · rw [hop]
      obtain ⟨hwritten, hfile⟩ := write_touches hmem hnext hinode hfs
      dsimp only
      rcases (Host.mk fs (host.ops+1)).attemptUnit_cases hfaults fun fs => fs.rename tmp path
        with hop | ⟨fs', hfs, hop⟩
      · rw [hop]
        dsimp only
        rcases (Host.mk fs (host.ops+1+1)).attemptUnit_cases hfaults fun fs => fs.removeFile tmp
          with hop | ⟨fs', hfs, hop⟩
        · rw [hop]
          exact hwritten
        · rw [hop]
          exact hwritten.trans (removeFile_touches hmem hfs)
      · rw [hop]
        exact hwritten.trans (rename_touches hfile hmem List.mem_cons_self hfs).1

theorem write_act_touches (w : World) (p : PendingWrite) :
    Touches (p.path :: (tempPath p.path).toList) ((Act.write p).inodes w) w.host.fs
      (w.writeFile plan p).2.host.fs := by
  have hwritten : Touches _ ((Act.write p).inodes w) _ _ :=
    atomicWrite_touches hfaults w.host p.path p.data fun tmp htmp => by
      rw [Act.inodes, Option.mem_def.mp htmp]
      exact ⟨by simp [World.inodesAt], fun i hi => by simp [World.inodesAt, Option.mem_def.mp hi]⟩
  unfold World.writeFile
  dsimp only
  split
  all_goals
    next host heq =>
    rw [heq] at hwritten
    exact hwritten

theorem makeDir_touches (w : World) (p : PendingDir) :
    Touches paths inodes w.host.fs (w.makeDir plan p).2.host.fs := by
  unfold World.makeDir
  dsimp only
  split_ifs
  · rcases w.host.attemptUnit_cases hfaults fun fs => fs.createDirAll p.path
      with hop | ⟨fs, hfs, hop⟩
    · rw [hop]
      exact .refl
    · rw [hop]
      exact createDirAll_touches hfs
  · exact .refl

/-- A rename that is done has moved the bytes; one that failed has moved nothing. -/
theorem renameEntry_touches {w : World} {r : PendingRename}
    (hfile : w.host.fs.nodes.lookup r.oldPath ≠ some .dir) :
    Touches [r.oldPath, r.newPath] [] w.host.fs (w.renameEntry plan r).2.host.fs ∧
      ((w.renameEntry plan r).2.host.fs.read r.oldPath = w.host.fs.read r.oldPath ∨
        (w.renameEntry plan r).2.host.fs.read r.newPath = w.host.fs.read r.oldPath ∧
          (w.renameEntry plan r).2.bindings.entry r.newKey = some r.newPath) := by
  unfold World.renameEntry
  dsimp only
  rcases w.host.attemptUnit_cases hfaults fun fs => fs.rename r.oldPath r.newPath
    with hop | ⟨fs, hfs, hop⟩
  · rw [hop]
    exact ⟨.refl, Or.inl rfl⟩
  · rw [hop]
    obtain ⟨hmoved, hread⟩ := rename_touches hfile List.mem_cons_self
      (List.mem_cons_of_mem _ List.mem_cons_self) hfs
    refine ⟨hmoved, Or.inr ⟨hread, ?_⟩⟩
    refine (congrFun (congrArg Bindings.entry (Facade.renamed_bindings r)) r.newKey).trans ?_
    exact Function.update_self ..

theorem deleteEntry_touches (w : World) (d : PendingDelete) :
    Touches [d.path] inodes w.host.fs (w.deleteEntry plan d).2.host.fs := by
  unfold World.deleteEntry
  dsimp only
  rcases w.host.attemptUnit_cases hfaults fun fs =>
    if d.isDir then fs.removeDir d.path else fs.removeFile d.path with hop | ⟨fs, hfs, hop⟩
  · rw [hop]
    split_ifs <;> exact .refl
  · have hremoved : Touches [d.path] inodes w.host.fs fs := by
      split_ifs at hfs
      · exact removeDir_touches List.mem_cons_self hfs
      · exact removeFile_touches List.mem_cons_self hfs
    rw [hop]
    split_ifs <;> exact hremoved

/-- An act changes no host file but those that it names. -/
theorem exec_touches {w : World} {a : Act} (ha : Settled w a) :
    Touches a.hostPaths (a.inodes w) w.host.fs (w.exec plan a).2.host.fs := by
  cases a with
  | note n => exact .refl
  | rename r => exact (renameEntry_touches hfaults ha).1
  | delete d => exact deleteEntry_touches hfaults w d
  | mkdir p => exact makeDir_touches hfaults w p
  | stream p => exact stream_touches hfaults w p
  | write p => exact write_act_touches hfaults w p
  | reinstall key file chain => exact .refl

theorem exec_read {w : World} {a : Act} (ha : Settled w a) (hlinks : Unlinked w a) {q : PathBuf}
    (hq : q ∉ a.hostPaths) : (w.exec plan a).2.host.fs.read q = w.host.fs.read q := by
  refine (exec_touches hfaults ha).read hq fun i hi => hlinks q ?_ hq i hi
  obtain ⟨node, hnode, -⟩ := Option.bind_eq_some_iff.mp hi
  exact AList.mem_keys.mp (AList.lookup_isSome.mp (Option.isSome_of_eq_some hnode))

end Exec

end IzarraVM.Katea
