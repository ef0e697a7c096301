import IzarraVM.SortedMap

/-! The store of guest-written sectors: a cache in RAM over a spill file, with host faults. -/
namespace IzarraVM.Katea

abbrev Sector := Fin 512 → UInt8

abbrev Lba := ℕ

abbrev chunkSectors : ℕ := 256
abbrev chunkBytes : ℕ := 131072
abbrev unallocated : ℕ := 2^64-1

def chunkId (lba : Lba) : ℕ := lba/chunkSectors

def chunkOffset (lba : Lba) : ℕ := lba%chunkSectors

structure Chunk where
  slab : ℕ
  present : ℕ → Bool
  written : ℕ → Bool
  lastSeq : ℕ

namespace Chunk

def new : Chunk := ⟨unallocated, fun _ => false, fun _ => false, 0⟩

variable (c : Chunk)

variable (lba : Lba)

def isPresent : Bool := c.present (chunkOffset lba)

def setPresent : Chunk :=
  { c with
    present := Function.update c.present (chunkOffset lba) true
    written := Function.update c.written (chunkOffset lba) true }

def clearPresent : Chunk :=
  { c with present := Function.update c.present (chunkOffset lba) false }

def wasWritten : Bool := c.written (chunkOffset lba)

end Chunk

structure SpillFile where
  bytes : ℕ → UInt8
  len : ℕ

namespace SpillFile

def setLen (f : SpillFile) (n : ℕ) : SpillFile :=
  ⟨fun i => if i < min f.len n then f.bytes i else 0, n⟩

def writeAt (f : SpillFile) (data : Sector) (off : ℕ) (n : ℕ) : SpillFile where
  bytes i := if h : off ≤ i ∧ i < off+n ∧ i < off+512 then data ⟨i-off, by omega⟩ else f.bytes i
  len := max f.len (off+n)

def readExactAt (f : SpillFile) (off : ℕ) (fault : Option String) : Except String Sector :=
  match fault with
  | some e => .error e
  | none =>
    if off+512 ≤ f.len then .ok fun i => f.bytes (off+i) else .error "failed to fill whole buffer"

end SpillFile

structure SpillFaults where
  openErr : Option String
  setLenErr : Option String
  writeErr : Option (Fin 512 × String)

structure SectorStore where
  cache : AList fun _ : Lba => ℕ × Sector
  order : SortedMap ℕ Lba
  chunks : AList fun _ : ℕ => Chunk
  spill : Option SpillFile
  spillLen : ℕ
  seq : ℕ
  capacity : ℕ
  broken : Bool
  readErrors : ℕ

namespace SectorStore

def withCapacity (capacity : ℕ) : SectorStore where
  cache := ∅
  order := .empty
  chunks := ∅
  spill := none
  spillLen := 0
  seq := 0
  capacity := max capacity 1
  broken := false
  readErrors := 0

def slotOf (slab : ℕ) (lba : Lba) : ℕ := slab+chunkOffset lba*512

def readSpilled (s : SectorStore) (chunk : Chunk) (lba : Lba) (fault : Option String) :
    Except String Sector :=
  match s.spill with
  | some file =>
    if chunk.slab ≠ unallocated then file.readExactAt (slotOf chunk.slab lba) fault
    else .error s!"katea spill: sector {lba} is marked written but has no payload"
  | none => .error s!"katea spill: sector {lba} is marked written but has no payload"

def get (s : SectorStore) (lba : Lba) (fault : Option String) :
    Except String (Option Sector) × SectorStore :=
  match s.cache.lookup lba with
  | some (_, data) => (.ok (some data), s)
  | none =>
    match s.chunks.lookup (chunkId lba) with
    | none => (.ok none, s)
    | some chunk =>
      if ¬ chunk.isPresent lba then (.ok none, s)
      else
        match s.readSpilled chunk lba fault with
        | .ok out => (.ok (some out), s)
        | .error e => (.error e, { s with readErrors := s.readErrors+1 })

def wasWritten (s : SectorStore) (lba : Lba) : Bool :=
  match s.chunks.lookup (chunkId lba) with
  | some c => c.wasWritten lba
  | none => false

def isPending (s : SectorStore) (lba : Lba) : Bool :=
  match s.chunks.lookup (chunkId lba) with
  | some c => c.isPresent lba
  | none => false

def wasWrittenSpan (s : SectorStore) (first count : ℕ) : Bool :=
  (List.range' first count).any s.wasWritten

def maxSeqIn (s : SectorStore) (first count : ℕ) : ℕ :=
  if count = 0 then 0
  else
    ((List.range' (chunkId first) (chunkId (first+count-1)+1-chunkId first)).filterMap
      s.chunks.lookup).foldl (fun m c => max m c.lastSeq) 0

def openSpill (s : SectorStore) (faults : SpillFaults) : Except String SpillFile × SectorStore :=
  match s.spill with
  | some file => (.ok file, s)
  | none =>
    match faults.openErr with
    | some e => (.error e, s)
    | none => (.ok ⟨fun _ => 0, 0⟩, { s with spill := some ⟨fun _ => 0, 0⟩, spillLen := 0 })

def slabFor (s : SectorStore) (file : SpillFile) (lba : Lba) (faults : SpillFaults) :
    Except String (ℕ × SpillFile) × SectorStore :=
  let append :=
    match faults.setLenErr with
    | some e => (.error e, s)
    | none =>
      let base := s.spillLen
      let file' := file.setLen (base+chunkBytes)
      let s' := { s with spill := some file', spillLen := base+chunkBytes }
      match s.chunks.lookup (chunkId lba) with
      | some chunk =>
        (.ok (base, file'),
          { s' with chunks := s.chunks.insert (chunkId lba) { chunk with slab := base } })
      | none => (.error "katea spill: chunk vanished", s')
  match s.chunks.lookup (chunkId lba) with
  | some chunk => if chunk.slab ≠ unallocated then (.ok (chunk.slab, file), s) else append
  | none => append

def spillSector (s : SectorStore) (lba : Lba) (data : Sector) (faults : SpillFaults) :
    Except String Unit × SectorStore :=
  match s.openSpill faults with
  | (.error e, s) => (.error e, s)
  | (.ok file, s) =>
    match s.slabFor file lba faults with
    | (.error e, s) => (.error e, s)
    | (.ok (slab, file), s) =>
      match faults.writeErr with
      | some (n, e) =>
        (.error e, { s with spill := some (file.writeAt data (slotOf slab lba) n) })
      | none => (.ok (), { s with spill := some (file.writeAt data (slotOf slab lba) 512) })

def evictOne (s : SectorStore) (faults : SpillFaults) : Bool × SectorStore :=
  match s.order.first? with
  | none => (false, s)
  | some (victimSeq, victimLba) =>
    match s.cache.lookup victimLba with
    | none => (true, { s with order := s.order.remove victimSeq })
    | some (_, data) =>
      match s.spillSector victimLba data faults with
      | (.ok (), s) =>
        (true, { s with order := s.order.remove victimSeq, cache := s.cache.erase victimLba })
      | (.error _, s) => (false, { s with broken := true })

structure SameResident (s s' : SectorStore) : Prop where
  cache : s'.cache = s.cache
  order : s'.order = s.order
  seq : s'.seq = s.seq
  capacity : s'.capacity = s.capacity
  broken : s'.broken = s.broken
  readErrors : s'.readErrors = s.readErrors

theorem SameResident.refl (s : SectorStore) : SameResident s s := ⟨rfl, rfl, rfl, rfl, rfl, rfl⟩

theorem SameResident.trans {s t u : SectorStore} (h : SameResident s t) (h' : SameResident t u) :
    SameResident s u :=
  ⟨h'.cache.trans h.cache, h'.order.trans h.order, h'.seq.trans h.seq,
    h'.capacity.trans h.capacity, h'.broken.trans h.broken, h'.readErrors.trans h.readErrors⟩

theorem openSpill_resident (s : SectorStore) (faults : SpillFaults) :
    SameResident s (s.openSpill faults).2 := by
  unfold openSpill
  split
  · exact .refl s
  · split <;> exact ⟨rfl, rfl, rfl, rfl, rfl, rfl⟩

theorem slabFor_resident (s : SectorStore) (file : SpillFile) (lba : Lba) (faults : SpillFaults) :
    SameResident s (s.slabFor file lba faults).2 := by
  unfold slabFor
  dsimp only
  split
  · split
    · exact .refl s
    · split
      · exact .refl s
      · exact ⟨rfl, rfl, rfl, rfl, rfl, rfl⟩
  · split
    · exact .refl s
    · exact ⟨rfl, rfl, rfl, rfl, rfl, rfl⟩

theorem spillSector_resident (s : SectorStore) (lba : Lba) (data : Sector)
    (faults : SpillFaults) : SameResident s (s.spillSector lba data faults).2 := by
  have hopen := s.openSpill_resident faults
  unfold spillSector
  split
  · next e t ht => rwa [ht] at hopen
  · next file t ht =>
    rw [ht] at hopen
    have hslab := t.slabFor_resident file lba faults
    split
    · next e u hu =>
      rw [hu] at hslab
      exact hopen.trans hslab
    · next slab file' u hu =>
      rw [hu] at hslab
      have hboth := hopen.trans hslab
      split <;> exact { hboth with }

theorem evictOne_order_lt {s : SectorStore} {faults : SpillFaults}
    (h : (s.evictOne faults).1 = true) :
    (s.evictOne faults).2.order.entries.length < s.order.entries.length := by
  unfold evictOne at h ⊢
  cases hfirst : s.order.first? with
  | none => simp only [hfirst, Bool.false_eq_true] at h
  | some p =>
    have hlt := s.order.length_remove_lt (s.order.mem_of_first? hfirst)
    cases hdata : s.cache.lookup p.2 with
    | none => simpa only [hfirst, hdata] using hlt
    | some entry =>
      have hres := s.spillSector_resident p.2 entry.2 faults
      simp only [hfirst, hdata] at h ⊢
      split at h
      · next t ht =>
        rw [ht] at hres
        have horder : t.order = s.order := hres.order
        simpa only [ht, horder] using hlt
      · cases h

def evictLoop (s : SectorStore) (faults : ℕ → SpillFaults) (n : ℕ) : SectorStore :=
  if s.capacity ≤ s.cache.entries.length ∧ s.broken = false then
    if h : (s.evictOne (faults n)).1 = true then (s.evictOne (faults n)).2.evictLoop faults (n+1)
    else (s.evictOne (faults n)).2
  else s
termination_by s.order.entries.length
decreasing_by exact evictOne_order_lt h

def insert (s : SectorStore) (lba : Lba) (data : Sector) (faults : ℕ → SpillFaults) :
    SectorStore :=
  let seq := s.seq+1
  let chunk := ((s.chunks.lookup (chunkId lba)).getD .new).setPresent lba
  let s := { s with
    seq := seq
    chunks := s.chunks.insert (chunkId lba) { chunk with lastSeq := seq } }
  -- room is made before a new key goes in; an overwrite of a resident sector needs none
  let s := if lba ∈ s.cache then s else s.evictLoop faults 0
  let order :=
    match s.cache.lookup lba with
    | some (oldSeq, _) => s.order.remove oldSeq
    | none => s.order
  { s with cache := s.cache.insert lba (seq, data), order := order.insert seq lba }

def acknowledge (s : SectorStore) (lba : Lba) : SectorStore :=
  let order :=
    match s.cache.lookup lba with
    | some (seq, _) => s.order.remove seq
    | none => s.order
  let chunks :=
    match s.chunks.lookup (chunkId lba) with
    | some chunk => s.chunks.insert (chunkId lba) (chunk.clearPresent lba)
    | none => s.chunks
  { s with cache := s.cache.erase lba, order := order, chunks := chunks }

end SectorStore

end IzarraVM.Katea
