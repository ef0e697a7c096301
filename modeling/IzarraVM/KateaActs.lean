import IzarraVM.KateaStream

/-! Everything a pass does, one act at a time; an act tells whether the host did it. -/
namespace IzarraVM.Katea

inductive ReconcileMode where
  | afterWrite
  | final
deriving DecidableEq

structure PendingRename where
  oldKey : Key
  newKey : Key
  oldPath : PathBuf
  newPath : PathBuf
  firstCluster : ℕ
  isDir : Bool

structure PendingDelete where
  key : Key
  path : PathBuf
  firstCluster : ℕ
  isDir : Bool

structure PendingDir where
  parent : ℕ
  name : Name83
  firstCluster : ℕ
  path : PathBuf
  force : Bool

def PendingDir.key (p : PendingDir) : Key := (p.parent, p.name)

structure PendingWrite where
  path : PathBuf
  data : List UInt8
  key : Key
  fingerprint : ℕ
  firstCluster : ℕ
  state : FileState
  gather : Gather
  chain : List ℕ

inductive Note where
  | begin
  | sweep (live : List Key)
  | register (chain : List ℕ) (owner : ℕ)
  | block (keys : List Key)
  | settle (key : Key)
  | retry (key : Key) (state : FileState)
  | failed
  | watermark (key : Key) (gather : Gather)
  | drain
  | hold (lba : ℕ)
  | rearm
  | pending (reconcile : Bool)
  | close

inductive Act where
  | note (n : Note)
  | rename (r : PendingRename)
  | delete (d : PendingDelete)
  | mkdir (p : PendingDir)
  | stream (p : PendingStream)
  | write (p : PendingWrite)
  /-- a projection put back under the chain its file now has -/
  | reinstall (key : Key) (file : ProjectedFile) (chain : List ℕ)

namespace Facade

variable (f : Facade)

def noteHostWriteFailure : Facade := { f with hostIoFailed := true }

def noteProjectionOperation : Facade :=
  { f with projectionOperations := f.projectionOperations+1 }

/-- Drop the block of an entry that is gone; its held sectors get a second look. -/
def unblock (key : Key) : Facade :=
  let claimed := ((f.projectedFiles.lookup key).map fun file =>
    file.chain.filter fun c => decide (c ∈ f.unmappedByCluster)).getD []
  { f with
    blockedProjectionKeys := f.blockedProjectionKeys.erase key
    newlyProjectableClusters := f.newlyProjectableClusters.union claimed }

def retainKeys {K V : Type} [DecidableEq K] (m : AList fun _ : K => V) (keep : K → Bool) :
    AList fun _ : K => V :=
  (m.keys.filter fun k => !keep k).foldl (fun m k => m.erase k) m

def forgetDirectory (firstCluster : ℕ) : Facade :=
  { f with
    dirPaths := f.dirPaths.erase firstCluster
    directoryClusters :=
      (f.directoryClusters.keys.filter fun c =>
        decide (f.directoryClusters.lookup c = some firstCluster)).foldl (fun m c => m.erase c)
        f.directoryClusters }

def note : Note → Facade
  | .begin => { f with hostIoFailed := false }
  | .sweep live =>
    let f := { f with retryGathers := retainKeys f.retryGathers fun k => decide (k ∈ live) }
    (f.blockedProjectionKeys.filter fun k => decide (k ∉ live)).foldl unblock f
  | .register chain owner =>
    { f with directoryClusters := insertAll (chain.map fun c => (c, owner)) f.directoryClusters }
  | .block keys => { f with blockedProjectionKeys := f.blockedProjectionKeys.union keys }
  | .settle key => { f with retryGathers := f.retryGathers.erase key }
  | .retry key state => { f with retryGathers := f.retryGathers.insert key state }
  | .failed => f.noteHostWriteFailure
  | .watermark key gather =>
    { f with
      mirrored :=
        match f.mirrored.lookup key with
        | some m => (f.mirror key { m with lastGather := some gather }).mirrored
        | none => f.mirrored
      retryGathers := f.retryGathers.erase key }
  | .drain => { f with newlyProjectableClusters := [] }
  | .hold lba => f.noteUnmapped lba
  | .rearm =>
    { f with
      newlyProjectableClusters := f.newlyProjectableClusters.union f.unmappedByCluster.keys }
  | .pending reconcile => { f with metadataReconcilePending := reconcile }
  | .close => { f with batchLbas := [], directoryDirty := false, fatDirtyClusters := [] }

def moveProjection (r : PendingRename) : Facade :=
  match f.projectedFiles.lookup r.oldKey with
  | none => f.removeProjection r.oldKey
  | some p =>
    (f.removeProjection r.oldKey).installProjection r.newKey r.newPath p.size p.chain
      p.extendedPastDirectory

def moveDirectory (firstCluster : ℕ) (path : PathBuf) : Facade :=
  { f with
    directoryPathsChanged := true
    dirPaths := f.dirPaths.insert firstCluster path }

def renamed (r : PendingRename) : Facade :=
  let f := f.noteProjectionOperation.moveProjection r
  let f := (f.unmirror r.oldKey).mirror r.newKey ⟨r.newPath, r.firstCluster, r.isDir, none, none⟩
  if r.isDir then f.moveDirectory r.firstCluster r.newPath else f

def deleted (d : PendingDelete) : Facade :=
  let f := (f.noteProjectionOperation.unmirror d.key).removeProjection d.key
  if d.isDir then f.forgetDirectory d.firstCluster else f

def bindDirectory (firstCluster : ℕ) (path : PathBuf) : Facade :=
  if firstCluster ∈ f.dirPaths then f
  else { f with dirPaths := f.dirPaths.insert firstCluster path }

def mirrorNew (key : Key) (m : MirrorEntry) : Facade :=
  if key ∈ f.mirrored then f else f.mirror key m

def madeDir (p : PendingDir) : Facade :=
  (f.noteProjectionOperation.bindDirectory p.firstCluster p.path).mirrorNew p.key
    ⟨p.path, p.firstCluster, true, none, none⟩

def written (p : PendingWrite) : Facade :=
  let f := f.noteProjectionOperation
  let f := f.installProjection p.key p.path p.gather.size p.chain false
  let f := f.mirror p.key ⟨p.path, p.firstCluster, false, some p.fingerprint, some p.gather⟩
  { f with retryGathers := f.retryGathers.erase p.key }

def unchangedDirectoryBinding (host : HostFiles) (memoHeld : Bool) (p : PendingDir) : Bool :=
  match f.mirrored.lookup p.key with
  | none => false
  | some m =>
    m.isDir && decide (m.firstCluster = p.firstCluster) &&
      decide (f.dirPaths.lookup p.firstCluster = some m.hostPath) &&
      (f.dirPaths.lookup p.parent).any (fun path =>
        decide (HostPath.parent m.hostPath = some path)) &&
      memoHeld &&
      (chainAndFacts f.stored f host p.firstCluster).any fun facts =>
        facts.inRange && !facts.written

end Facade

def atomicWrite (faults : HostFaults) (host : Host) (path : PathBuf) (data : List UInt8) :
    Bool × Host :=
  match tempPath path with
  | none => (false, host)
  | some tmp =>
    match host.attemptUnit faults fun fs => fs.write tmp data with
    | (false, host) => (false, host)
    | (true, host) =>
      match host.attemptUnit faults fun fs => fs.rename tmp path with
      | (true, host) => (true, host)
      | (false, host) => (false, (host.attemptUnit faults fun fs => fs.removeFile tmp).2)

namespace World

variable (plan : Plan) (w : World)

def renameEntry (r : PendingRename) : Bool × World :=
  let f := { w.facade with hostWriteHandles := w.facade.hostWriteHandles.erase r.oldPath }
  match w.host.attemptUnit plan.hostFaults fun fs => fs.rename r.oldPath r.newPath with
  | (false, host) => (false, { w with facade := f.noteHostWriteFailure, host })
  | (true, host) => (true, { w with facade := f.renamed r, host })

def deleteEntry (d : PendingDelete) : Bool × World :=
  let f := { w.facade with hostWriteHandles := w.facade.hostWriteHandles.erase d.path }
  let (done, host) := w.host.attemptUnit plan.hostFaults fun fs =>
    if d.isDir then fs.removeDir d.path else fs.removeFile d.path
  if !done && host.fs.pathExists d.path then
    (false, { w with facade := f.noteHostWriteFailure, host })
  else (true, { w with facade := f.deleted d, host })

def makeDir (p : PendingDir) : Bool × World :=
  let f := w.facade
  let look := p.force || f.directoryPathsChanged ||
    !f.unchangedDirectoryBinding w.files (plan.memoHeld w.passes p.firstCluster) p
  if look && !w.host.fs.isDir p.path then
    match w.host.attemptUnit plan.hostFaults fun fs => fs.createDirAll p.path with
    | (false, host) => (false, { w with facade := f.noteHostWriteFailure, host })
    | (true, host) => (true, { w with facade := f.madeDir p, host })
  else (true, { w with facade := f.madeDir p })

def writeFile (p : PendingWrite) : Bool × World :=
  let f := { w.facade with hostWriteHandles := w.facade.hostWriteHandles.erase p.path }
  match atomicWrite plan.hostFaults w.host p.path p.data with
  | (true, host) => (true, { w with facade := f.written p, host })
  | (false, host) =>
    (false, { w with facade := f.noteHostWriteFailure.note (.retry p.key p.state), host })

def exec : Act → Bool × World
  | .note n => (true, { w with facade := w.facade.note n })
  | .rename r => w.renameEntry plan r
  | .delete d => w.deleteEntry plan d
  | .mkdir p => w.makeDir plan p
  | .stream p => streamFileOverlay plan w p
  | .write p => w.writeFile plan p
  | .reinstall key file chain =>
    (true, { w with
      facade := w.facade.installProjection key file.path file.size chain file.extendedPastDirectory })

end World

def Act.hostPaths : Act → List PathBuf
  | .note _ => []
  | .rename r => [r.oldPath, r.newPath]
  | .delete d => [d.path]
  | .mkdir p => [p.path]
  | .stream p => [p.path]
  | .write p => p.path :: (tempPath p.path).toList
  | .reinstall _ _ _ => []

end IzarraVM.Katea
