import IzarraVM.KateaFolder
import IzarraVM.KateaMount
import IzarraVM.KateaWrite

/-! The state that guest writes work on: bindings, and what was touched since the last commit. -/
namespace IzarraVM.Katea

structure Gather where
  size : ℕ
  chainId : ℕ
  seq : ℕ
  allPresent : Bool
deriving DecidableEq

structure MirrorEntry where
  hostPath : PathBuf
  firstCluster : ℕ
  isDir : Bool
  lastFingerprint : Option ℕ
  lastGather : Option Gather

structure FileState where
  firstCluster : ℕ
  size : ℕ
  chainId : ℕ
  chainSeq : ℕ
deriving DecidableEq

structure Facade extends KateaTreeVolume where
  dirPaths : AList fun _ : ℕ => PathBuf
  directoryPathsChanged : Bool
  mirrored : AList fun _ : Key => MirrorEntry
  blockedProjectionKeys : List Key
  hostWriteHandles : AList fun _ : PathBuf => ℕ
  directoryClusters : AList fun _ : ℕ => ℕ
  batchLbas : List ℕ
  unmappedByCluster : AList fun _ : ℕ => List ℕ
  unmappedSectors : ℕ
  newlyProjectableClusters : List ℕ
  directoryDirty : Bool
  metadataReconcilePending : Bool
  fatDirtyClusters : List ℕ
  hostIoFailed : Bool
  systemNames : List Name83
  retryGathers : AList fun _ : Key => FileState
  projectionOperations : ℕ

def seedDirPaths (root : TreeDir) : List (ℕ × PathBuf) :=
  (walk true root).map fun p => (p.2.firstCluster, p.2.hostPath)

/-- The host files and subdirectories of one directory. The system files have no host side. -/
def mirrorsOf (d : TreeDir) : List (Key × MirrorEntry) :=
  (hostFilesOf d).map (fun (key, path, f) => (key, ⟨path, f.firstCluster, false, none, none⟩)) ++
    d.subdirs.map fun s =>
      ((d.firstCluster, s.name), ⟨s.dir.hostPath, s.dir.firstCluster, true, none, none⟩)

def seedMirrored (root : TreeDir) : List (Key × MirrorEntry) :=
  (walk true root).flatMap fun p => mirrorsOf p.2

def seedDirectoryClusters (root : TreeDir) : List (ℕ × ℕ) :=
  (walk true root).flatMap fun p =>
    (chainOfRun p.2.firstCluster p.2.clusterCount).map fun c => (c, p.2.firstCluster)

namespace Facade

def new (mbr vbr : Sector) (root : TreeDir) (geo : Geometry) (systemFiles : List SystemFile) :
    Facade where
  toKateaTreeVolume := .new mbr vbr root geo
  dirPaths := insertAll (seedDirPaths root) ∅
  directoryPathsChanged := false
  mirrored := insertAll (seedMirrored root) ∅
  blockedProjectionKeys := []
  hostWriteHandles := ∅
  directoryClusters := insertAll (seedDirectoryClusters root) ∅
  batchLbas := []
  unmappedByCluster := ∅
  unmappedSectors := 0
  newlyProjectableClusters := []
  directoryDirty := false
  metadataReconcilePending := false
  fatDirtyClusters := []
  hostIoFailed := false
  -- the folder made for the system binaries is never made on the host
  systemNames := systemFiles.map (fun f => foldLiteral83 f.name) ++
    (if systemFiles.any inDosFolder then [dosName] else [])
  retryGathers := ∅
  projectionOperations := 0

variable (f : Facade)

def clusterToLba (cluster s : ℕ) : ℕ :=
  wrap32 (f.geo.partStart+f.geo.firstDataSector+(cluster-rootCluster)*f.geo.spc+s)

def maxChain : ℕ := f.geo.countOfClusters+2

def clusterInRange (c : ℕ) : Bool := rootCluster ≤ c ∧ c ≤ f.geo.countOfClusters+1

variable (lba : ℕ)

def dataClusterOf : Option ℕ :=
  let firstData := f.geo.partStart+f.geo.firstDataSector
  if lba < firstData then none else some (rootCluster+(lba-firstData)/f.geo.spc)

def isMetadataSector : Bool :=
  match f.dataClusterOf lba with
  | none => true
  | some cluster => cluster ∈ f.directoryClusters

def noteMetadataWrite : Bool × Facade :=
  if lba < f.geo.partStart then (true, f)
  else
    let rel := lba-f.geo.partStart
    if reservedSectors ≤ rel ∧ rel < reservedSectors+numFats*f.geo.fatsz then
      let within := (rel-reservedSectors)%f.geo.fatsz
      (true, { f with
        fatDirtyClusters := f.fatDirtyClusters.union (List.range' (within*128) 128) })
    else if rel < f.geo.firstDataSector then (true, f)
    else if rootCluster+(rel-f.geo.firstDataSector)/f.geo.spc ∈ f.directoryClusters then
      (true, { f with directoryDirty := true })
    else (false, f)

def noteUnmapped : Facade :=
  match f.dataClusterOf lba with
  | none => f
  | some cluster =>
    let held := (f.unmappedByCluster.lookup cluster).getD []
    if lba ∈ held then f
    else
      { f with
        unmappedByCluster := f.unmappedByCluster.insert cluster (lba :: held)
        unmappedSectors := f.unmappedSectors+1 }

def forgetUnmapped : Facade :=
  match f.dataClusterOf lba with
  | none => f
  | some cluster =>
    match f.unmappedByCluster.lookup cluster with
    | none => f
    | some held =>
      let rest := held.erase lba
      { f with
        unmappedByCluster :=
          if rest = [] then f.unmappedByCluster.erase cluster
          else f.unmappedByCluster.insert cluster rest
        unmappedSectors := if lba ∈ held then f.unmappedSectors-1 else f.unmappedSectors }

def writeSector (data : Sector) (faults : ℕ → SpillFaults) : Facade :=
  let (metadata, f) := f.noteMetadataWrite lba
  let f := { f with store := f.store.insert lba data faults, batchLbas := f.batchLbas.insert lba }
  let projected := (f.dataClusterOf lba).any fun c => decide (c ∈ f.projectedClusters)
  if !metadata && !projected then f.noteUnmapped lba else f

variable (key : Key)

def mirror (m : MirrorEntry) : Facade := { f with mirrored := f.mirrored.insert key m }

def unmirror : Facade := { f with mirrored := f.mirrored.erase key }

def dropProjected (old : ProjectedFile) : Facade :=
  { f with
    projectedFiles := f.projectedFiles.erase key
    projectedClusters := old.chain.foldl (fun m c =>
      if (m.lookup c).any fun owner => decide (owner.1 = key) then m.erase c else m)
      f.projectedClusters }

def displace (owner : Key) : Facade :=
  match f.projectedFiles.lookup owner with
  | none => f
  | some displaced =>
    { f with
      projectedFiles := f.projectedFiles.insert owner { displaced with mappingIntact := false } }

def noteProjectable (cluster : ℕ) : Facade :=
  if cluster ∈ f.unmappedByCluster then
    { f with newlyProjectableClusters := f.newlyProjectableClusters.insert cluster }
  else f

def claimCluster (p : Facade × Bool) (e : ℕ × ℕ) : Facade × Bool :=
  let (f, intact) := p
  let (cluster, index) := e
  let mapped := { f with projectedClusters := f.projectedClusters.insert cluster (key, index) }
  match f.projectedClusters.lookup cluster with
  | none => (mapped.noteProjectable cluster, intact)
  | some (owner, oldIndex) =>
    if owner = key then (mapped.noteProjectable cluster, intact && oldIndex = index)
    else ((mapped.displace owner).noteProjectable cluster, intact)

def installProjection (path : PathBuf) (size : ℕ) (chain : List ℕ)
    (extendedPastDirectory : Bool) : Facade :=
  let f := { f with blockedProjectionKeys := f.blockedProjectionKeys.erase key }
  let f := ((f.projectedFiles.lookup key).map (f.dropProjected key)).getD f
  let (f, mappingIntact) := chain.zipIdx.foldl (claimCluster key) (f, true)
  { f with
    projectedFiles :=
      f.projectedFiles.insert key ⟨path, size, chain, mappingIntact, extendedPastDirectory⟩ }

def removeProjection : Facade :=
  let f := { f with blockedProjectionKeys := f.blockedProjectionKeys.erase key }
  match f.projectedFiles.lookup key with
  | none => f
  | some old =>
    { f.dropProjected key old with hostWriteHandles := f.hostWriteHandles.erase old.path }

def chainShiftsProjection (chain : List ℕ) : Bool :=
  if (f.projectedFiles.lookup key).any fun file =>
    file.mappingIntact && decide (file.chain = chain) then false
  else
    chain.zipIdx.any fun (cluster, index) =>
      (f.projectedClusters.lookup cluster).any fun (owner, at') =>
        decide (owner ≠ key ∨ at' ≠ index)

end Facade

end IzarraVM.Katea
