import IzarraVM.InsertAll
import IzarraVM.KateaVolume

/-! Mounting a folder, and reading the mounted disk one sector at a time. -/
namespace IzarraVM.Katea

abbrev HostFiles := PathBuf → Option (List UInt8)

structure ProjectedFile where
  path : PathBuf
  size : ℕ
  chain : List ℕ
  mappingIntact : Bool
  extendedPastDirectory : Bool

structure SectorRead where
  bytes : Sector
  degraded : Bool

def zeroSector : Sector := fun _ => 0

structure KateaTreeVolume where
  geo : Geometry
  mbr : Sector
  vbr : Sector
  freeCount : ℕ
  nextFree : ℕ
  fat : ClusterIndex
  runs : List (Run Role)
  store : SectorStore
  projectedFiles : AList fun _ : Key => ProjectedFile
  projectedClusters : AList fun _ : ℕ => Key × ℕ

def chainOfRun (first count : ℕ) : List ℕ := List.range' first count

def hostFilesOf (d : TreeDir) : List (Key × PathBuf × TreeFile) :=
  d.files.filterMap fun f =>
    match f.source with
    | .hostFile path _ => some ((d.firstCluster, f.name), path, f)
    | .inMemory _ => none

def seedProjectedFiles (root : TreeDir) : List (Key × ProjectedFile) :=
  (walk true root).flatMap fun p => (hostFilesOf p.2).map fun (key, path, f) =>
    (key, ⟨path, declaredSize f.source, chainOfRun f.firstCluster f.clusterCount, true, false⟩)

def seedProjectedClusters (root : TreeDir) : List (ℕ × Key × ℕ) :=
  (walk true root).flatMap fun p => (hostFilesOf p.2).flatMap fun (key, _, f) =>
    (List.range f.clusterCount).map fun index => (f.firstCluster+index, key, index)

def sortRuns (runs : List (Run Role)) : List (Run Role) :=
  runs.mergeSort fun a b => decide (a.first ≤ b.first)

def flatten (root : TreeDir) : List (Run Role) :=
  (treeRuns true root).map (Run.retag Owner.role)

namespace KateaTreeVolume

def new (mbr vbr : Sector) (root : TreeDir) (geo : Geometry) : KateaTreeVolume :=
  let fat := ClusterIndex.build root
  { geo
    mbr := stampMbr mbr geo
    vbr := stampVbr vbr geo
    freeCount := geo.countOfClusters-(fat.nextFree-rootCluster)
    nextFree := fat.nextFree
    fat
    runs := sortRuns (flatten root)
    store := .withCapacity 28672
    projectedFiles := insertAll (seedProjectedFiles root) ∅
    projectedClusters := insertAll (seedProjectedClusters root) ∅ }

def validBytes (byteOff size : ℕ) : ℕ := min (size-byteOff) sectorBytes

def spanOf (bytes : List UInt8) (byteOff valid : ℕ) : Sector :=
  fun i => if i.val < valid then bytes.getD (byteOff+i.val) 0 else 0

def readHostSpan (host : HostFiles) (path : PathBuf) (byteOff size : ℕ) : SectorRead :=
  let valid := validBytes byteOff size
  if valid = 0 then ⟨zeroSector, false⟩
  else
    match host path with
    | none => ⟨zeroSector, true⟩
    | some bytes =>
      if byteOff+valid ≤ bytes.length then ⟨spanOf bytes byteOff valid, false⟩
      else ⟨zeroSector, true⟩

def readSourceSpan (host : HostFiles) (source : FileSource) (byteOff size : ℕ) : SectorRead :=
  let valid := validBytes byteOff size
  if valid = 0 then ⟨zeroSector, false⟩
  else
    match source with
    | .inMemory v => ⟨spanOf v byteOff (min valid (v.length-byteOff)), false⟩
    | .hostFile path _ => readHostSpan host path byteOff size

def dirSector (entries : List DirEntry) (sectorInDir : ℕ) : Sector := fun i =>
  match entries[sectorInDir*16+i.val/32]? with
  | some e => byteAt e (i.val%32)
  | none => 0

variable (v : KateaTreeVolume)

def runSector (host : HostFiles) (cluster sectorInCluster : ℕ) : SectorRead :=
  match Run.owner v.runs cluster with
  | none => ⟨zeroSector, false⟩
  | some run =>
    let clusterOff := cluster-run.first
    match run.tag with
    | .dir entries => ⟨dirSector entries (clusterOff*v.geo.spc+sectorInCluster), false⟩
    | .file source size =>
      readSourceSpan host source
        (clusterOff*v.geo.spc*sectorBytes+sectorInCluster*sectorBytes) size

def dataSector (host : HostFiles) (cluster sectorInCluster : ℕ) : SectorRead :=
  match v.projectedClusters.lookup cluster with
  | some (key, clusterIndex) =>
    match v.projectedFiles.lookup key with
    | some projected =>
      readHostSpan host projected.path
        ((clusterIndex*v.geo.spc+sectorInCluster)*sectorBytes) projected.size
    | none => v.runSector host cluster sectorInCluster
  | none => v.runSector host cluster sectorInCluster

def baseSector (host : HostFiles) (lba : ℕ) : SectorRead :=
  if lba = 0 then ⟨v.mbr, false⟩
  else if lba < v.geo.partStart then ⟨zeroSector, false⟩
  else
    let rel := lba-v.geo.partStart
    if rel = 0 ∨ rel = backupBootSector then ⟨v.vbr, false⟩
    else if rel = fsinfoSector ∨ rel = backupFsinfoSector then
      ⟨fat32FsinfoSector v.freeCount v.nextFree, false⟩
    else if reservedSectors ≤ rel ∧ rel < reservedSectors+numFats*v.geo.fatsz then
      ⟨v.fat.fatSector ((rel-reservedSectors)%v.geo.fatsz), false⟩
    else if v.geo.firstDataSector ≤ rel then
      let dataLba := rel-v.geo.firstDataSector
      v.dataSector host (rootCluster+dataLba/v.geo.spc) (dataLba%v.geo.spc)
    else ⟨zeroSector, false⟩

def readSectorChecked (host : HostFiles) (lba : ℕ) (fault : Option String) :
    SectorRead × KateaTreeVolume :=
  match v.store.get lba fault with
  | (.ok (some s), store) => (⟨s, false⟩, { v with store })
  | (.ok none, store) => (v.baseSector host lba, { v with store })
  | (.error _, store) => (⟨zeroSector, true⟩, { v with store })

def readSector (host : HostFiles) (lba : ℕ) : Sector := (v.readSectorChecked host lba none).1.bytes

end KateaTreeVolume

end IzarraVM.Katea
