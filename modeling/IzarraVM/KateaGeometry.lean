import IzarraVM.LoopRun
import IzarraVM.KateaTree

/-! Sizing of the FAT32 volume. Sums made in `u32` are modulo 2^32, those in `u64` exact. -/
namespace IzarraVM.Katea
open Loop

abbrev partStart : ℕ := 2048
abbrev reservedSectors : ℕ := 32
abbrev numFats : ℕ := 2
abbrev rootCluster : ℕ := 2
abbrev minPartSectors : ℕ := 532481
abbrev fat32MaxClusters : ℕ := 0x0FFFFFF4
abbrev maxSpc : ℕ := 64

def sectorsPerCluster (totalSectors : ℕ) : Option ℕ :=
  if totalSectors ≤ 66600 then none
  else if totalSectors ≤ 532480 then some 1
  else if totalSectors ≤ 16777216 then some 8
  else if totalSectors ≤ 33554432 then some 16
  else if totalSectors ≤ 67108864 then some 32
  else some 64

def fatSizeSectors (totalSectors spc : ℕ) : ℕ :=
  let fatdata := wrap32 (totalSectors+2^32-reservedSectors)
  let fatentpersec := sectorBytes/4
  let divisor := fatentpersec*spc+numFats
  wrap32 (fatdata+(2*spc+divisor-1))/divisor

structure Geometry where
  spc : ℕ
  fatsz : ℕ
  partStart : ℕ
  partSectors : ℕ
  totalSectors : ℕ
  firstDataSector : ℕ
  countOfClusters : ℕ
deriving DecidableEq, Repr

def entryCount (dir : TreeDir) (isRoot : Bool) : ℕ :=
  let dot := if isRoot then 0 else 2
  wrap32 (wrap32 (dot+wrap32 dir.files.length)+wrap32 dir.subdirs.length)

def clustersFor (bytes clusterBytes : ℕ) : ℕ := max (wrap32 (divCeil bytes clusterBytes)) 1

mutual
def dirDemand (isRoot : Bool) (clusterBytes : ℕ) : TreeDir → ℕ
  | .mk files subdirs first count parent path =>
    clustersFor (entryCount (.mk files subdirs first count parent path) isRoot*32) clusterBytes
      +(files.map fun f => clustersFor f.source.len clusterBytes).sum
      +subdirsDemand clusterBytes subdirs
def subdirsDemand (clusterBytes : ℕ) : List TreeSubdir → ℕ
  | [] => 0
  | s :: rest => dirDemand false clusterBytes s.dir+subdirsDemand clusterBytes rest
end

def treeClusterDemand (tree : HostTree) (clusterBytes : ℕ) : ℕ :=
  dirDemand true clusterBytes tree.root

def nextSpc (spc : ℕ) : ℕ :=
  if spc = 1 then 8 else if spc = 8 then 16 else if spc = 16 then 32 else maxSpc

def tooLarge : String := "Katea: host folder too large for a single FAT32 volume"

variable (demandAt : ℕ → ℕ)

def countOfClusters (spc : ℕ) : ℕ :=
  let needed := max (demandAt (spc*sectorBytes)) 1
  max (needed+needed/4) (divCeil minPartSectors spc)

def refineFatsz (dataSectors spc fatsz : ℕ) : ℕ :=
  fatSizeSectors (wrap32 (reservedSectors+numFats*fatsz+dataSectors)) spc

def OverBand (spc : ℕ) : Prop :=
  countOfClusters demandAt spc > fat32MaxClusters ∨ countOfClusters demandAt spc*spc > u32Max

instance (demandAt : ℕ → ℕ) (spc : ℕ) : Decidable (OverBand demandAt spc) :=
  inferInstanceAs (Decidable (_ ∨ _))

def climb (spc : ℕ) : Pass ℕ (Except String Geometry) :=
  if spc < maxSpc then .next (nextSpc spc) else .done (.error tooLarge)

def closePass (spc fatsz : ℕ) : Option (Pass ℕ (Except String Geometry)) :=
  let used := wrap32 (reservedSectors+numFats*fatsz)
  let partSectors := used+countOfClusters demandAt spc*spc
  let totalSectors := partStart+partSectors
  if totalSectors > u32Max then some (climb spc)
  else
    match sectorsPerCluster partSectors with
    | none => none
    | some derived =>
      if derived ≠ spc then some (.next derived)
      else some (.done (.ok
        { spc, fatsz, partStart, partSectors, totalSectors
          firstDataSector := used
          countOfClusters := countOfClusters demandAt spc }))

/-- One pass of the loop over `spc`. `none` when `fuel` does not end the inner loop, or on a panic.
-/
def geometryPass (fuel spc : ℕ) : Option (Pass ℕ (Except String Geometry)) :=
  let dataSectors := countOfClusters demandAt spc*spc
  if OverBand demandAt spc then some (climb spc)
  else
    match run (fixedBody (refineFatsz dataSectors spc)) fuel
        (fatSizeSectors (wrap32 (reservedSectors+dataSectors)) spc) with
    | none => none
    | some fatsz => closePass demandAt spc fatsz

def fat32GeometryFor (fuel : ℕ) : Option (Except String Geometry) :=
  run (geometryPass demandAt fuel) fuel 1

def GeometryReturns : Prop := ∃ fuel r, fat32GeometryFor demandAt fuel = some r

end IzarraVM.Katea
