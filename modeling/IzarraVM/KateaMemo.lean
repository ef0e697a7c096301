import IzarraVM.EpochMemo
import IzarraVM.KateaStream
import IzarraVM.SectorStoreHistory

/-! The memo of cluster chains, served until a FAT sector that the walk read is written. -/
namespace IzarraVM.Katea

open EpochMemo

structure WalkLog where
  reads : ℕ
  sectors : List ℕ
  degraded : Bool

def WalkLog.start : WalkLog := ⟨0, [], false⟩

namespace Facade

variable (f : Facade)

def resolve (faults : ℕ → Option String) (lba : ℕ) : StateM WalkLog (Option Sector) := fun log =>
  let within := lba-(f.geo.partStart+reservedSectors)
  let log' : WalkLog :=
    { reads := log.reads+1
      sectors := if within < f.geo.fatsz then log.sectors ++ [within] else log.sectors
      degraded := log.degraded || decide (f.geo.fatsz ≤ within) }
  match (f.store.get lba (faults log.reads)).1 with
  | .ok sector => (sector, log')
  | .error _ => (some zeroSector, { log' with degraded := true })

def freshWalk (host : HostFiles) (faults : ℕ → Option String) (first : ℕ) :
    Option (List ℕ) × WalkLog :=
  (chainOf (f.resolve faults) f host first).run .start

end Facade

structure MemoFacts where
  allInRange : Bool
  dataChunks : List ℕ
  dataWritten : Bool
  dataSeq : ℕ

structure ChainMemo extends MemoFacts where
  result : Option (List ℕ)
  sectors : List ℕ
  epoch : ℕ

namespace Facade

variable (f : Facade)

def clusterChunks (c : ℕ) : List ℕ :=
  let base := f.clusterToLba c 0
  let last := min (base+(f.geo.spc-1)) u32Max
  List.range' (chunkId base) (chunkId last+1-chunkId base)

def chainFacts : Option (List ℕ) → MemoFacts
  | none => ⟨false, [], false, f.store.seq⟩
  | some chain =>
    { allInRange := chain.all f.clusterInRange
      dataChunks := (((chain.filter f.clusterInRange).flatMap f.clusterChunks).mergeSort
        fun a b => decide (a ≤ b)).dedup
      dataWritten := chain.any f.clusterWritten
      dataSeq := f.store.seq }

end Facade

structure MemoVolume where
  facade : Facade
  chainMemo : AList fun _ : ℕ => ChainMemo
  fat : Stamps ℕ

abbrev chainMemoMaxEntries : ℕ := 65536

namespace MemoVolume

def new (f : Facade) : MemoVolume := ⟨f, ∅, .start⟩

variable (v : MemoVolume)

def chainMemoIsCurrent (memo : ChainMemo) : Bool := v.fat.isCurrent memo.epoch memo.sectors

def held (first : ℕ) : Option ChainMemo :=
  (v.chainMemo.lookup first).filter v.chainMemoIsCurrent

def keep (first : ℕ) (memo : ChainMemo) : MemoVolume :=
  let entries :=
    if chainMemoMaxEntries ≤ v.chainMemo.entries.length ∧ first ∉ v.chainMemo then ∅
    else v.chainMemo
  { v with chainMemo := entries.insert first memo }

def walked (walk : Option (List ℕ) × WalkLog) : ChainMemo :=
  ⟨v.facade.chainFacts walk.1, walk.1, walk.2.sectors, v.fat.epoch⟩

def chainWithToken (host : HostFiles) (faults : ℕ → Option String) (first : ℕ) :
    (Option (List ℕ) × Option (ℕ × List ℕ)) × MemoVolume :=
  match v.held first with
  | some memo => ((memo.result, some (memo.epoch, memo.sectors)), v)
  | none =>
    let walk := v.facade.freshWalk host faults first
    if walk.2.degraded then ((walk.1, none), v)
    else
      ((walk.1, some (v.fat.epoch, walk.2.sectors)),
        v.keep first (v.walked walk))

def chainOf (host : HostFiles) (faults : ℕ → Option String) (first : ℕ) :
    Option (List ℕ) × MemoVolume :=
  ((v.chainWithToken host faults first).1.1, (v.chainWithToken host faults first).2)

def revalidate (chain : List ℕ) (memo : ChainMemo) : ChainMemo :=
  if !memo.dataWritten &&
      !(memo.dataChunks.all fun id => decide (v.facade.store.chunkLastSeq id ≤ memo.dataSeq)) then
    { memo with
      dataWritten := chain.any v.facade.clusterWritten
      dataSeq := v.facade.store.seq }
  else memo

def factsFor (first : ℕ) (chain : List ℕ) : Facade.ChainFacts × MemoVolume :=
  match v.chainMemo.lookup first with
  | none =>
    let facts := v.facade.chainFacts (some chain)
    (⟨chain, facts.allInRange, facts.dataWritten⟩, v)
  | some memo =>
    let memo := v.revalidate chain memo
    (⟨chain, memo.allInRange, memo.dataWritten⟩,
      { v with chainMemo := v.chainMemo.insert first memo })

def chainAndFacts (host : HostFiles) (faults : ℕ → Option String) (first : ℕ) :
    Option Facade.ChainFacts × MemoVolume :=
  match v.chainOf host faults first with
  | (none, v) => (none, v)
  | (some chain, v) => ((v.factsFor first chain).1, (v.factsFor first chain).2)

def stamp (lba : ℕ) : MemoVolume :=
  let geo := v.facade.geo
  if lba < geo.partStart then v
  else
    let rel := lba-geo.partStart
    if reservedSectors ≤ rel ∧ rel < reservedSectors+numFats*geo.fatsz then
      { v with fat := v.fat.touch ((rel-reservedSectors)%geo.fatsz) }
    else v

def writeSector (lba : ℕ) (data : Sector) (faults : ℕ → SpillFaults) : MemoVolume :=
  { v.stamp lba with facade := v.facade.writeSector lba data faults }

def acknowledge (lba : ℕ) : MemoVolume := { v with facade := v.facade.acknowledge lba }

def OutsideFats (lba : ℕ) : Prop :=
  lba < v.facade.geo.partStart+reservedSectors ∨
    v.facade.geo.partStart+reservedSectors+numFats*v.facade.geo.fatsz ≤ lba

def rebind (f : Facade) : MemoVolume :=
  { v with
    facade := { f with geo := v.facade.geo, fat := v.facade.fat, store := v.facade.store } }

end MemoVolume

inductive MemoEvent where
  | writeSector (lba : UInt32) (data : Sector) (faults : ℕ → SpillFaults)
  | chainOf (host : HostFiles) (faults : ℕ → Option String) (first : ℕ)
  | chainAndFacts (host : HostFiles) (faults : ℕ → Option String) (first : ℕ)
  | acknowledge (lba : ℕ)
  | rebind (f : Facade)

namespace MemoVolume

def step (v : MemoVolume) : MemoEvent → MemoVolume
  | .writeSector lba data faults => v.writeSector lba.toNat data faults
  | .chainOf host faults first => (v.chainOf host faults first).2
  | .chainAndFacts host faults first => (v.chainAndFacts host faults first).2
  | .acknowledge lba => v.acknowledge lba
  | .rebind f => v.rebind f

/-- A commit takes no FAT sector off the store, as `stream_file_overlay` asserts. -/
def Asserted (v : MemoVolume) : MemoEvent → Prop
  | .acknowledge lba => v.OutsideFats lba
  | _ => True

end MemoVolume

end IzarraVM.Katea
