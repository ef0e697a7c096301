import IzarraVM.KateaReconcile
import IzarraVM.StepRuns

/-! The end of a guest write command, the flush, and whole sessions of a guest. -/
namespace IzarraVM.Katea

inductive CommitGuestWriteResult where
  | projected
  | deferred
  | hostIoFailure
deriving DecidableEq

section Commit

variable (plan : Plan)

def entryPending (w : World) (l : Facade.LiveEntry) : Reading Bool :=
  match w.facade.mirrored.lookup l.key with
  | none => pure true
  | some m =>
    if m.firstCluster ≠ l.firstCluster ∨ m.isDir ≠ l.isDir then pure true
    else if l.isDir then pure false
    else
      match w.facade.projectedFiles.lookup l.key with
      | none => pure true
      | some file =>
        if file.size ≠ l.size then pure true
        else do
          let chain ← Facade.chainOf (w.overlay plan) w.facade w.files l.firstCluster
          pure (decide (chain ≠ some file.chain))

def anyPending (w : World) : List Facade.LiveEntry → Reading Bool
  | [] => pure false
  | l :: rest => do
    if ← entryPending plan w l then pure true else anyPending w rest

def metadataProjectionPending (w : World) : Reading Bool :=
  if w.facade.blockedProjectionKeys ≠ [] then pure true
  else do
    match ← (gatherLive plan w).bracket with
    | none => pure true
    | some found =>
      let live := w.facade.liveEntries found
      let keys := live.map Facade.LiveEntry.key ++ w.facade.protectedKeys found
      if w.facade.mirrored.keys.any fun k => decide (k ∉ keys) then pure true
      else anyPending plan w live

variable (t : Trail)

def notePending : Trail :=
  if t.world.facade.hostIoFailed then t.note plan (.pending true)
  else
    let (unsettled, t) := t.read (metadataProjectionPending plan t.world)
    t.note plan (.pending unsettled)

def refreshOne (p : Key × ProjectedFile) : Trail :=
  let (facts, t) := t.read (Facade.chainAndFacts (t.world.overlay plan) t.world.facade t.world.files
    (p.2.chain.head?.getD 0))
  match facts with
  | none => t.note plan (.block [p.1])
  | some facts =>
    let conflicts := facts.chain.filterMap fun c =>
      ((t.world.facade.projectedClusters.lookup c).map Prod.fst).filter fun k => decide (k ≠ p.1)
    if !facts.inRange then t.note plan (.block [p.1])
    else if conflicts ≠ [] then t.note plan (.block (p.1 :: conflicts))
    else if t.world.facade.chainShiftsProjection p.1 facts.chain then t.note plan (.block [p.1])
    else t.act plan (.reinstall p.1 p.2 facts.chain)

def refreshChangedFatProjections : Trail :=
  let f := t.world.facade
  let keys := (f.fatDirtyClusters.filterMap fun c =>
    (f.projectedClusters.lookup c).map Prod.fst).dedup
  let affected := (plan.shuffle Key (3*t.world.passes) keys).filterMap fun k =>
    (f.projectedFiles.lookup k).map fun file => (k, file)
  affected.foldl (refreshOne plan) t

abbrev ProjectedBatch := AList fun _ : Key => ℕ × List (ℕ × ℕ)

def batchOne (p : ProjectedBatch × Trail) (lba : ℕ) : ProjectedBatch × Trail :=
  let (batch, t) := p
  let f := t.world.facade
  if !f.store.isPending lba || f.isMetadataSector lba then p
  else
    let rel := lba-f.geo.partStart-f.geo.firstDataSector
    match f.projectedClusters.lookup (rootCluster+rel/f.geo.spc) with
    | none => (batch, t.note plan (.hold lba))
    | some (key, clusterIndex) =>
      if key ∈ f.blockedProjectionKeys then (batch, t.note plan (.hold lba))
      else
        let offset := (clusterIndex*f.geo.spc+rel%f.geo.spc)*sectorBytes
        let currentSize := ((f.projectedFiles.lookup key).map ProjectedFile.size).getD 0
        let reach := if offset < currentSize then currentSize else min (offset+sectorBytes) u32Max
        let (most, sectors) := (batch.lookup key).getD (reach, [])
        (batch.insert key (max most reach, sectors ++ [(lba, offset)]), t)

def batchCandidates : List ℕ :=
  let f := t.world.facade
  if f.unmappedByCluster.entries = [] then f.batchLbas
  else
    let clusters := f.newlyProjectableClusters.union (f.batchLbas.filterMap f.dataClusterOf)
    let held := clusters.flatMap fun c => (f.unmappedByCluster.lookup c).getD []
    f.batchLbas ++ held.filter fun lba => decide (lba ∉ f.batchLbas)

def batchState (w : World) (file : ProjectedFile) (size : ℕ) : FileState :=
  fileState plan w (file.chain.head?.getD 0) size file.chain

def streamBatch : List (Key × ℕ × List (ℕ × ℕ)) → Trail → Bool × Trail
  | [], t => (true, t)
  | (key, reach, sectors) :: rest, t =>
    match t.world.facade.projectedFiles.lookup key with
    | none => streamBatch rest t
    | some file =>
      let size := max file.size reach
      let state := batchState plan t.world file size
      let stream := Act.stream ⟨file.path, key, state.firstCluster, size, file.chain, state,
        some sectors, false⟩
      if t.succeeds plan stream then streamBatch rest (t.act plan stream)
      else (false, t.act plan stream)

def streamProjectedBatch : Bool × Trail :=
  let candidates := plan.shuffle ℕ (3*t.world.passes+1) (batchCandidates t)
  let (batch, t) := candidates.foldl (batchOne plan) (∅, t.note plan .drain)
  streamBatch plan (plan.shuffle _ (3*t.world.passes+2) (batch.entries.map fun e => (e.1, e.2))) t

def holdStranded : Trail :=
  let f := t.world.facade
  let stranded := f.batchLbas.filter fun lba =>
    f.store.isPending lba && !f.isMetadataSector lba
  ((t.acts plan (stranded.map fun lba => .note (.hold lba))).note plan .rearm).note plan .failed

def streamCommand : Trail :=
  let (done, t) := streamProjectedBatch plan (refreshChangedFatProjections plan t)
  if done then t else holdStranded plan t

def Trail.nextPass : Trail :=
  { t with world := { t.world with passes := t.world.passes+1 } }

def commitResult (before : ℕ) (w : World) : CommitGuestWriteResult :=
  if w.facade.hostIoFailed then .hostIoFailure
  else if before < w.facade.projectionOperations then .projected
  else .deferred

def commitGuestWriteBatch : CommitGuestWriteResult × Trail :=
  let before := t.world.facade.projectionOperations
  let t := t.nextPass.note plan .begin
  let f := t.world.facade
  let t :=
    if f.directoryDirty || (f.metadataReconcilePending && decide (f.fatDirtyClusters ≠ [])) then
      notePending plan (reconcileMode plan .afterWrite t)
    else streamCommand plan t
  let t := t.note plan .close
  (commitResult before t.world, t)

def syncHandles (faults : HostFaults) : ℕ → Host → Bool × Host
  | 0, host => (true, host)
  | n+1, host =>
    match host.attemptUnit faults some with
    | (true, host) => syncHandles faults n host
    | (false, host) => (false, host)

def flushWriteHandles : Trail :=
  let handles := t.world.facade.hostWriteHandles.entries.length
  match syncHandles plan.hostFaults handles t.world.host with
  | (true, host) =>
    { t with
      world := { t.world with
        host
        facade := { t.world.facade with
          projectionOperations := t.world.facade.projectionOperations+handles } } }
  | (false, host) => ({ t with world := { t.world with host } }).note plan .failed

def flushGuestWrites : CommitGuestWriteResult × Trail :=
  let before := t.world.facade.projectionOperations
  let t := t.nextPass.note plan .begin
  let t := notePending plan (reconcileMode plan .final t)
  let t := (flushWriteHandles plan t).note plan .close
  (commitResult before t.world, t)

inductive Event where
  | writeSector (lba : ℕ) (data : Sector) (faults : ℕ → SpillFaults)
  | commit
  | flush

def Trail.event : Event → Trail
  | .writeSector lba data faults =>
    { t with world := { t.world with facade := t.world.facade.writeSector lba data faults } }
  | .commit => (commitGuestWriteBatch plan t).2
  | .flush => (flushGuestWrites plan t).2

def session (events : List Event) : Trail := Runs.exec (Trail.event plan) events t

end Commit

end IzarraVM.Katea
