import IzarraVM.ByteFields
import IzarraVM.KateaAllocate
import IzarraVM.SectorStore

/-! The disk view of a mounted folder, without the caches of host reads (the same bytes). -/
namespace IzarraVM.Katea

abbrev DirEntry := Fin 32 → UInt8

abbrev Key := ℕ × Name83

abbrev fsinfoSector : ℕ := 1
abbrev backupBootSector : ℕ := 6
abbrev backupFsinfoSector : ℕ := 7
abbrev attrArchive : UInt8 := 0x20
abbrev attrSubdir : UInt8 := 0x10
abbrev fat0Media : ℕ := 0x0FFFFFF8
abbrev fat32Eoc : ℕ := 0x0FFFFFFF

structure ClusterIndex where
  nextFree : ℕ
  chainEnds : List ℕ

namespace ClusterIndex

def pushRun (index : ClusterIndex) (run : ℕ × ℕ) : ClusterIndex :=
  if run.2 = 0 then index
  else ⟨max index.nextFree (run.1+run.2), (run.1+run.2-1) :: index.chainEnds⟩

def chainsOf (p : Bool × TreeDir) : List (ℕ × ℕ) :=
  (p.2.firstCluster, p.2.clusterCount) :: p.2.files.map fun f => (f.firstCluster, f.clusterCount)

def build (root : TreeDir) : ClusterIndex :=
  ((walk true root).flatMap chainsOf).foldl pushRun ⟨rootCluster, []⟩

def fatEntry (index : ClusterIndex) (c : ℕ) : ℕ :=
  if c = 0 then fat0Media
  else if c = 1 then fat32Eoc
  else if c < index.nextFree then if c ∈ index.chainEnds then fat32Eoc else c+1
  else 0

def fatSector (index : ClusterIndex) (sector : ℕ) : Sector := fun i =>
  byteAt (putBytes (fun _ : Fin 4 => 0) 0
    (leBytes 4 (index.fatEntry (sector*128+i.val/4)%2^28))) (i.val%4)

end ClusterIndex

def fat32DirEntry (name83 : Name83) (attr : UInt8) (cluster writeTime writeDate size : ℕ) :
    DirEntry :=
  let e : DirEntry := fun _ => 0
  let e := putBytes e 0 (List.ofFn name83)
  let e := putBytes e 11 [attr]
  let e := putBytes e 20 (leBytes 2 (cluster/2^16))
  let e := putBytes e 22 (leBytes 2 writeTime)
  let e := putBytes e 24 (leBytes 2 writeDate)
  let e := putBytes e 26 (leBytes 2 cluster)
  putBytes e 28 (leBytes 4 size)

def dotName : Name83 := fun i => if i.val = 0 then 0x2E else 0x20

def dotdotName : Name83 := fun i => if i.val < 2 then 0x2E else 0x20

def declaredSize (source : FileSource) : ℕ := min source.len u32Max

def fileEntry (f : TreeFile) : DirEntry :=
  fat32DirEntry f.name attrArchive f.firstCluster 0 0 (declaredSize f.source)

def subdirEntry (s : TreeSubdir) : DirEntry :=
  fat32DirEntry s.name attrSubdir s.dir.firstCluster 0 0 0

def dotEntries (dir : TreeDir) (isRoot : Bool) : List DirEntry :=
  if isRoot then []
  else
    let dotdotCluster := if dir.parentFirstCluster = rootCluster then 0 else dir.parentFirstCluster
    [fat32DirEntry dotName attrSubdir dir.firstCluster 0 0 0,
      fat32DirEntry dotdotName attrSubdir dotdotCluster 0 0 0]

def dirEntries (dir : TreeDir) (isRoot : Bool) : List DirEntry :=
  dotEntries dir isRoot ++ dir.files.map fileEntry ++ dir.subdirs.map subdirEntry

inductive Role where
  | dir (entries : List DirEntry)
  | file (source : FileSource) (size : ℕ)

def Owner.role : Owner → Role
  | .dir isRoot d => .dir (dirEntries d isRoot)
  | .file _ f => .file f.source (declaredSize f.source)

def lbaToChs (lba : ℕ) : List UInt8 :=
  let cyl := lba/(16*63)
  let rem := lba%(16*63)
  if cyl > 1023 then [0xFE, 0xFF, 0xFF]
  else
    [UInt8.ofNat (rem/63), UInt8.ofNat (cyl/256%4*64+(rem%63+1)%64), UInt8.ofNat cyl]

def stampMbr (mbr : Sector) (geo : Geometry) : Sector :=
  let m := putBytes mbr 0x1BE [0x80]
  let m := putBytes m 0x1BF (lbaToChs geo.partStart)
  let m := putBytes m 0x1C2 [0x0C]
  let m := putBytes m 0x1C3 (lbaToChs (geo.partStart+geo.partSectors-1))
  let m := putBytes m 0x1C6 (leBytes 4 geo.partStart)
  let m := putBytes m 0x1CA (leBytes 4 geo.partSectors)
  putBytes m 0x1FE [0x55, 0xAA]

def stampFat32Bpb (vbr : Sector) (geo : Geometry) : Sector :=
  let v := putBytes vbr 0x03 [0x4D, 0x53, 0x57, 0x49, 0x4E, 0x34, 0x2E, 0x31]
  let v := putBytes v 0x0B (leBytes 2 sectorBytes)
  let v := putBytes v 0x0D [UInt8.ofNat geo.spc]
  let v := putBytes v 0x0E (leBytes 2 reservedSectors)
  let v := putBytes v 0x10 [UInt8.ofNat numFats]
  let v := putBytes v 0x11 (leBytes 2 0)
  let v := putBytes v 0x13 (leBytes 2 0)
  let v := putBytes v 0x15 [0xF8]
  let v := putBytes v 0x16 (leBytes 2 0)
  let v := putBytes v 0x18 (leBytes 2 63)
  let v := putBytes v 0x1A (leBytes 2 16)
  let v := putBytes v 0x1C (leBytes 4 geo.partStart)
  let v := putBytes v 0x20 (leBytes 4 geo.partSectors)
  let v := putBytes v 0x24 (leBytes 4 geo.fatsz)
  let v := putBytes v 0x28 (leBytes 2 0)
  let v := putBytes v 0x2A (leBytes 2 0)
  let v := putBytes v 0x2C (leBytes 4 rootCluster)
  let v := putBytes v 0x30 (leBytes 2 fsinfoSector)
  let v := putBytes v 0x32 (leBytes 2 backupBootSector)
  let v := putBytes v 0x40 [0x80]
  let v := putBytes v 0x42 [0x29]
  let v := putBytes v 0x43 (leBytes 4 0x32303236)
  let v := putBytes v 0x47 [0x54, 0x4F, 0x4B, 0x41, 0x2D, 0x44, 0x4F, 0x53, 0x20, 0x20, 0x20]
  putBytes v 0x52 [0x46, 0x41, 0x54, 0x33, 0x32, 0x20, 0x20, 0x20]

def stampVbr (vbr : Sector) (geo : Geometry) : Sector :=
  putBytes (stampFat32Bpb vbr geo) 0x28 (leBytes 2 0x0080)

def fat32FsinfoSector (freeCount nextFree : ℕ) : Sector :=
  let s : Sector := fun _ => 0
  let s := putBytes s 0 (leBytes 4 0x41615252)
  let s := putBytes s 484 (leBytes 4 0x61417272)
  let s := putBytes s 488 (leBytes 4 freeCount)
  let s := putBytes s 492 (leBytes 4 nextFree)
  putBytes s 508 (leBytes 4 0xAA550000)

end IzarraVM.Katea
