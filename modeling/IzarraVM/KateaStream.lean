import IzarraVM.KateaScan

/-! Writing the pending sectors of one file through to its host file. -/
namespace IzarraVM.Katea

/-- What a run does not fix: failing reads and host operations, the order of hash tables, the
hashes, the chains that the memo still holds, and a bound on the steps of a pass. -/
structure Plan where
  readFault : ℕ → Option String
  hostFaults : HostFaults
  shuffle : (α : Type) → ℕ → List α → List α
  shuffle_perm : ∀ (α : Type) (n : ℕ) (l : List α), (shuffle α n l).Perm l
  fingerprint : List UInt8 → ℕ
  chainId : List ℕ → ℕ
  memoHeld : ℕ → ℕ → Bool
  fuel : ℕ

structure World where
  facade : Facade
  host : Host
  tally : Tally
  passes : ℕ

structure PendingStream where
  path : PathBuf
  key : Key
  firstCluster : ℕ
  size : ℕ
  chain : List ℕ
  state : FileState
  sectors : Option (List (ℕ × ℕ))
  setLen : Bool

structure Extent where
  size : ℕ
  setLen : Bool
  extended : Bool

def streamExtent (existing : Option (ℕ × Bool)) (size : ℕ) (setLen : Bool) : Extent :=
  match existing, setLen with
  | some (existingSize, true), true =>
    if divCeil size sectorBytes*sectorBytes < existingSize then ⟨existingSize, false, true⟩
    else ⟨size, true, false⟩
  | _, true => ⟨size, true, false⟩
  | some (existingSize, extended), false => ⟨size, false, extended || decide (existingSize < size)⟩
  | none, false => ⟨size, false, false⟩

structure Spans where
  spans : List (ℕ × List UInt8)
  acknowledged : List ℕ

def pushSpan : List (ℕ × List UInt8) → ℕ → List UInt8 → List (ℕ × List UInt8)
  | [], offset, bytes => [(offset, bytes)]
  | [(at', old)], offset, bytes =>
    if at'+old.length = offset then [(at', old ++ bytes)] else [(at', old), (offset, bytes)]
  | span :: rest, offset, bytes => span :: pushSpan rest offset bytes

namespace Facade

variable (f : Facade)

def chainPositions (chain : List ℕ) : List (ℕ × ℕ) :=
  chain.zipIdx.flatMap fun (cluster, index) =>
    (List.range f.geo.spc).map fun s =>
      (f.clusterToLba cluster s, (index*f.geo.spc+s)*sectorBytes)

def pendingRead (faults : ℕ → Option String) (lba : ℕ) : Reading (Option (Option Sector)) :=
  .device fun n =>
    match (f.store.get lba (faults n)).1 with
    | .ok sector => (some sector, false)
    | .error _ => (none, true)

def collectSpans (faults : ℕ → Option String) (size : ℕ) :
    List (ℕ × ℕ) → Spans → Reading (Option Spans)
  | [], acc => pure (some acc)
  | (lba, offset) :: rest, acc =>
    if !f.store.isPending lba then collectSpans faults size rest acc
    else do
      match ← f.pendingRead faults lba with
      | none => pure none
      | some none => collectSpans faults size rest acc
      | some (some sector) =>
        let valid := min (size-offset) sectorBytes
        if valid = 0 then collectSpans faults size rest acc
        else
          collectSpans faults size rest
            { spans := pushSpan acc.spans offset ((List.ofFn sector).take valid)
              acknowledged :=
                if valid = sectorBytes then acc.acknowledged ++ [lba] else acc.acknowledged }

def acknowledge (lba : ℕ) : Facade :=
  ({ f with store := f.store.acknowledge lba } : Facade).forgetUnmapped lba

end Facade

abbrev maxHostWriteHandles : ℕ := 64

namespace World

variable (plan : Plan) (w : World)

def read {α : Type} (r : Reading α) : α × World :=
  ((r.run w.tally).1, { w with tally := (r.run w.tally).2 })

def overlay : ℕ → Reading (Option Sector) := w.facade.overlayRead plan.readFault

def files : HostFiles := w.host.fs.read

def openHandle (path : PathBuf) : Option ℕ × World :=
  let handles := w.facade.hostWriteHandles
  let handles :=
    if maxHostWriteHandles ≤ handles.entries.length ∧ path ∉ handles then ∅ else handles
  match handles.lookup path with
  | some inode => (some inode, { w with facade := { w.facade with hostWriteHandles := handles } })
  | none =>
    match w.host.attempt plan.hostFaults fun fs => fs.openWrite path with
    | (none, host) =>
      (none, { w with facade := { w.facade with hostWriteHandles := handles }, host })
    | (some inode, host) =>
      (some inode,
        { w with facade := { w.facade with hostWriteHandles := handles.insert path inode }, host })

end World

def writeSpans (faults : HostFaults) (inode : ℕ) : List (ℕ × List UInt8) → Host → Bool × Host
  | [], host => (true, host)
  | (offset, bytes) :: rest, host =>
    match host.attemptUnit faults fun fs => some (fs.writeAt inode offset bytes) with
    | (true, host) => writeSpans faults inode rest host
    | (false, host) => (false, host)

def writeThrough (faults : HostFaults) (inode : ℕ) (spans : List (ℕ × List UInt8))
    (extent : Extent) (host : Host) : Bool × Host :=
  match writeSpans faults inode spans host with
  | (false, host) => (false, host)
  | (true, host) =>
    if extent.setLen then host.attemptUnit faults fun fs => some (fs.setLen inode extent.size)
    else (true, host)

def Facade.streamed (f : Facade) (pending : PendingStream) (extent : Extent) (spans : Spans) :
    Facade :=
  let f := { f with
    projectionOperations :=
      f.projectionOperations+spans.spans.length+(if extent.setLen then 1 else 0) }
  let f := spans.acknowledged.foldl Facade.acknowledge f
  let f := f.installProjection pending.key pending.path extent.size pending.chain extent.extended
  let f := f.mirror pending.key
    { hostPath := pending.path
      firstCluster := pending.firstCluster
      isDir := false
      lastFingerprint := none
      lastGather := some ⟨pending.state.size, pending.state.chainId, f.store.seq, true⟩ }
  { f with retryGathers := f.retryGathers.erase pending.key }

def streamFileOverlay (plan : Plan) (w : World) (pending : PendingStream) : Bool × World :=
  let f := w.facade
  let existing := (f.projectedFiles.lookup pending.key).map fun file =>
    (file.size, file.extendedPastDirectory)
  let extent := streamExtent existing pending.size pending.setLen
  let positions := pending.sectors.getD (f.chainPositions pending.chain)
  let positions := positions.mergeSort fun a b => decide (a.2 ≤ b.2)
  match w.read (f.collectSpans plan.readFault extent.size positions ⟨[], []⟩) with
  | (none, w) => (false, w)
  | (some spans, w) =>
    match w.openHandle plan pending.path with
    | (none, w) => (false, w)
    | (some inode, w) =>
      match writeThrough plan.hostFaults inode spans.spans extent w.host with
      | (false, host) => (false, { w with host })
      | (true, host) => (true, { w with facade := w.facade.streamed pending extent spans, host })

end IzarraVM.Katea
