import IzarraVM.InsertAll
import IzarraVM.SectorStore

/-! The spill file: spilling one sector leaves the payload of all others alone. -/
namespace IzarraVM.Katea.SectorStore

variable {s s' : SectorStore} {lba : Lba} {data : Sector}

structure SlabsFit (s : SectorStore) : Prop where
  aligned : s.spillLen%131072 = 0
  fresh : s.spill = none → s.spillLen = 0
  within : ∀ file, s.spill = some file → file.len = s.spillLen
  slab : ∀ id c, s.chunks.lookup id = some c → c.slab ≠ unallocated →
    c.slab%131072 = 0 ∧ c.slab+131072 ≤ s.spillLen
  distinct : ∀ id id' c c', s.chunks.lookup id = some c → s.chunks.lookup id' = some c' →
    c.slab ≠ unallocated → c.slab = c'.slab → id = id'

def Spilled (s : SectorStore) (lba : Lba) (data : Sector) : Prop :=
  ∃ file chunk, s.spill = some file ∧ s.chunks.lookup (chunkId lba) = some chunk ∧
    chunk.slab ≠ unallocated ∧ slotOf chunk.slab lba+512 ≤ file.len ∧
    ∀ i : Fin 512, file.bytes (slotOf chunk.slab lba+i) = data i

structure Keeps (lba : Lba) (s s' : SectorStore) : Prop where
  fit : SlabsFit s'
  pending : ∀ l, s'.isPending l = s.isPending l
  written : ∀ l, s'.wasWritten l = s.wasWritten l
  chunk : ∀ id, (s'.chunks.lookup id).isSome = (s.chunks.lookup id).isSome
  spilled : ∀ l d, l ≠ lba → s.Spilled l d → s'.Spilled l d

theorem Keeps.trans {t : SectorStore} (h : Keeps lba s s') (h' : Keeps lba s' t) :
    Keeps lba s t where
  fit := h'.fit
  pending l := (h'.pending l).trans (h.pending l)
  written l := (h'.written l).trans (h.written l)
  chunk id := (h'.chunk id).trans (h.chunk id)
  spilled l d hl hd := h'.spilled l d hl (h.spilled l d hl hd)

theorem Keeps.refl (hfit : SlabsFit s) : Keeps lba s s :=
  ⟨hfit, fun _ => rfl, fun _ => rfl, fun _ => rfl, fun _ _ _ h => h⟩

theorem slotOf_bounds (slab : ℕ) (lba : Lba) :
    slab ≤ slotOf slab lba ∧ slotOf slab lba+512 ≤ slab+131072 := by
  have hoff : chunkOffset lba < 256 := Nat.mod_lt _ (by decide)
  unfold slotOf
  omega

theorem chunkOffset_ne {l l' : ℕ} (hne : l ≠ l') (hid : chunkId l = chunkId l') :
    chunkOffset l ≠ chunkOffset l' := by
  simp only [chunkId, chunkOffset, chunkSectors] at hid ⊢
  omega

/-- Distinct sectors have disjoint slots. -/
theorem SlabsFit.slot_disjoint (hfit : SlabsFit s) {l : Lba} (hne : l ≠ lba) {c c' : Chunk}
    (hc : s.chunks.lookup (chunkId l) = some c) (hslab : c.slab ≠ unallocated)
    (hc' : s.chunks.lookup (chunkId lba) = some c') (hslab' : c'.slab ≠ unallocated) :
    slotOf c.slab l+512 ≤ slotOf c'.slab lba ∨ slotOf c'.slab lba+512 ≤ slotOf c.slab l := by
  have hl := slotOf_bounds c.slab l
  have hlba := slotOf_bounds c'.slab lba
  have hf := (hfit.slab _ c hc hslab).1
  have hf' := (hfit.slab _ c' hc' hslab').1
  by_cases hid : chunkId l = chunkId lba
  · -- one chunk, so the offsets differ
    rw [hid, hc'] at hc
    cases hc
    have hoff := chunkOffset_ne hne hid
    unfold slotOf
    omega
  · have hne' : c.slab ≠ c'.slab := fun h => hid (hfit.distinct _ _ c c' hc hc' hslab h)
    omega

theorem openSpill_keeps (lba : Lba) (hfit : SlabsFit s) (faults : SpillFaults) :
    Keeps lba s (s.openSpill faults).2 ∧
      (s.openSpill faults).2.chunks = s.chunks ∧
      ∀ file, (s.openSpill faults).1 = .ok file → (s.openSpill faults).2.spill = some file := by
  unfold openSpill
  cases hspill : s.spill with
  | some file => exact ⟨.refl hfit, rfl, fun f hf => by cases hf; exact hspill⟩
  | none =>
    cases faults.openErr with
    | some e => exact ⟨.refl hfit, rfl, fun f hf => by cases hf⟩
    | none =>
      have hlen := hfit.fresh hspill
      refine ⟨⟨⟨rfl, fun h => (by cases h), fun f hf => (by cases hf; rfl), ?_, hfit.distinct⟩,
        fun _ => rfl, fun _ => rfl, fun _ => rfl, ?_⟩, rfl, fun f hf => by cases hf; rfl⟩
      · -- without a file no chunk had a slab
        intro id c hc hslab
        have := (hfit.slab id c hc hslab).2
        omega
      · rintro l d - ⟨file, chunk, hfile, -⟩
        rw [hspill] at hfile
        cases hfile

/-- Growing the file keeps the bytes that were in it. -/
theorem setLen_bytes {file : SpillFile} {n i : ℕ} (hi : i < file.len) (hn : file.len ≤ n) :
    (file.setLen n).bytes i = file.bytes i := by
  simp only [SpillFile.setLen, show i < min file.len n by omega, ↓reduceIte]

/-- Recording a slab in a chunk changes no presence bit. -/
theorem isPending_setSlab {c : Chunk} {id base : ℕ} (hc : s.chunks.lookup id = some c)
    (hchunks : s'.chunks = s.chunks.insert id { c with slab := base }) (l : Lba) :
    s'.isPending l = s.isPending l ∧ s'.wasWritten l = s.wasWritten l := by
  unfold isPending wasWritten
  rw [hchunks]
  by_cases hid : chunkId l = id
  · rw [hid, AList.lookup_insert, hc]
    exact ⟨rfl, rfl⟩
  · rw [AList.lookup_insert_ne hid]
    exact ⟨rfl, rfl⟩

def appendSlab (s : SectorStore) (file : SpillFile) (id : ℕ) (c : Chunk) : SectorStore :=
  { s with
    spill := some (file.setLen (s.spillLen+131072))
    spillLen := s.spillLen+131072
    chunks := s.chunks.insert id { c with slab := s.spillLen } }

theorem appendSlab_fit (hfit : SlabsFit s) (file : SpillFile) {id : ℕ} (c : Chunk) :
    SlabsFit (s.appendSlab file id c) := by
  have haligned := hfit.aligned
  refine ⟨?_, fun h => (by cases h), fun f hf => (by cases hf; rfl), ?_, ?_⟩
  · change (s.spillLen+131072)%131072 = 0
    omega
  · intro i d hd hslab
    change d.slab%131072 = 0 ∧ d.slab+131072 ≤ s.spillLen+131072
    rcases lookup_insert_some hd with ⟨rfl, rfl⟩ | ⟨-, hd⟩
    · exact ⟨haligned, le_rfl⟩
    · have := hfit.slab i d hd hslab
      omega
  · -- the new slab starts where all earlier ones have ended
    have hold (i : ℕ) (d : Chunk) (hd : s.chunks.lookup i = some d) (hslab : d.slab ≠ unallocated) :
        d.slab ≠ s.spillLen := by
      have := (hfit.slab i d hd hslab).2
      omega
    intro i j d e hd he hslab heq
    rcases lookup_insert_some hd with ⟨rfl, rfl⟩ | ⟨-, hd'⟩ <;>
      rcases lookup_insert_some he with ⟨rfl, rfl⟩ | ⟨-, he'⟩
    · rfl
    · exact absurd heq.symm (hold j e he' (heq ▸ hslab))
    · exact absurd heq (hold i d hd' hslab)
    · exact hfit.distinct i j d e hd' he' hslab heq

theorem writeAt_bytes_of_disjoint {file : SpillFile} {off n i : ℕ} (hi : i < off ∨ off+512 ≤ i) :
    (file.writeAt data off n).bytes i = file.bytes i := by
  have hout : ¬ (off ≤ i ∧ i < off+n ∧ i < off+512) := by omega
  simp only [SpillFile.writeAt, hout, ↓reduceDIte]

theorem writeAt_bytes {file : SpillFile} {off : ℕ} (i : Fin 512) :
    (file.writeAt data off 512).bytes (off+i) = data i := by
  have hin : off ≤ off+i.val ∧ off+i.val < off+512 ∧ off+i.val < off+512 := by omega
  simp only [SpillFile.writeAt, hin, and_self, ↓reduceDIte, Nat.add_sub_cancel_left, Fin.eta]

section Slab

variable (hfit : SlabsFit s) {file : SpillFile} (hfile : s.spill = some file) {c : Chunk}
  (hc : s.chunks.lookup (chunkId lba) = some c)
include hfit hfile hc

theorem appendSlab_keeps (hslab : c.slab = unallocated) :
    Keeps lba s (s.appendSlab file (chunkId lba) c) := by
  have hbits (l : Lba) := isPending_setSlab hc
    (rfl : (s.appendSlab file (chunkId lba) c).chunks = _) l
  refine ⟨appendSlab_fit hfit file c, fun l => (hbits l).1, fun l => (hbits l).2, ?_, ?_⟩
  · intro id
    by_cases hid : id = chunkId lba
    · subst hid
      simp only [appendSlab, AList.lookup_insert, hc, Option.isSome_some]
    · simp only [appendSlab, AList.lookup_insert_ne hid]
  · rintro l d - ⟨file', chunk, hfile', hchunk, hne, hlen, hbytes⟩
    rw [hfile] at hfile'
    cases hfile'
    have hflen := hfit.within file hfile
    have hid : chunkId l ≠ chunkId lba := by
      intro hid
      rw [hid, hc] at hchunk
      cases hchunk
      exact hne hslab
    refine ⟨_, chunk, rfl, ?_, hne, ?_, fun i => ?_⟩
    · simp only [appendSlab, AList.lookup_insert_ne hid, hchunk]
    · change _ ≤ s.spillLen+131072
      omega
    · rw [setLen_bytes (by omega) (by omega)]
      exact hbytes i

/-- The slab `slabFor` hands out is the one its chunk records. -/
theorem slabFor_keeps (faults : SpillFaults) :
    Keeps lba s (s.slabFor file lba faults).2 ∧
      ∀ slab file', (s.slabFor file lba faults).1 = .ok (slab, file') →
        (s.slabFor file lba faults).2.spill = some file' ∧
        ∃ c', (s.slabFor file lba faults).2.chunks.lookup (chunkId lba) = some c' ∧
          c'.slab = slab ∧ slab ≠ unallocated := by
  unfold slabFor
  simp only [hc]
  by_cases hslab : c.slab = unallocated
  · simp only [hslab, ne_eq, not_true_eq_false, ↓reduceIte]
    cases faults.setLenErr with
    | some e => exact ⟨.refl hfit, fun slab file' h => by cases h⟩
    | none =>
      refine ⟨appendSlab_keeps hfit hfile hc hslab, ?_⟩
      intro slab file' h
      cases h
      refine ⟨rfl, _, AList.lookup_insert _, rfl, ?_⟩
      -- a slab starts at a multiple of its size, the sentinel is odd
      have haligned := hfit.aligned
      change s.spillLen ≠ 2^64-1
      omega
  · simp only [ne_eq, hslab, not_false_eq_true, ↓reduceIte]
    refine ⟨.refl hfit, ?_⟩
    intro slab file' h
    cases h
    exact ⟨hfile, c, hc, rfl, hslab⟩

/-- A write into the slot of `lba`, whole or cut short, stays inside it. -/
theorem writeAt_keeps (hslab : c.slab ≠ unallocated) {n : ℕ} (hn : n ≤ 512) :
    Keeps lba s { s with spill := some (file.writeAt data (slotOf c.slab lba) n) } := by
  have hslot := slotOf_bounds c.slab lba
  have hin := (hfit.slab _ c hc hslab).2
  have hlen := hfit.within file hfile
  have hlen' : (file.writeAt data (slotOf c.slab lba) n).len = file.len := by
    simp only [SpillFile.writeAt]
    omega
  refine ⟨⟨hfit.aligned, fun h => (by cases h), ?_, hfit.slab, hfit.distinct⟩,
    fun _ => rfl, fun _ => rfl, fun _ => rfl, ?_⟩
  · intro f hf
    cases hf
    exact hlen'.trans hlen
  · rintro l d hl ⟨file', c', hfile', hc', hslab', hend, hbytes⟩
    rw [hfile] at hfile'
    cases hfile'
    refine ⟨_, c', rfl, hc', hslab', by rw [hlen']; exact hend, fun i => ?_⟩
    have hdisj := hfit.slot_disjoint hl hc' hslab' hc hslab
    rw [writeAt_bytes_of_disjoint (by omega)]
    exact hbytes i

end Slab

/-- One spill keeps every other sector, and when it succeeds its sector is in the file. -/
theorem spillSector_keeps (hfit : SlabsFit s) {c : Chunk}
    (hc : s.chunks.lookup (chunkId lba) = some c) (data : Sector) (faults : SpillFaults) :
    Keeps lba s (s.spillSector lba data faults).2 ∧
      ((s.spillSector lba data faults).1 = .ok () →
        (s.spillSector lba data faults).2.Spilled lba data) := by
  obtain ⟨hopen, hchunks, hspill⟩ := openSpill_keeps lba hfit faults
  unfold spillSector
  generalize s.openSpill faults = opened at hopen hchunks hspill ⊢
  obtain ⟨r, t⟩ := opened
  cases r with
  | error e => exact ⟨hopen, fun h => by cases h⟩
  | ok file =>
    have hct : t.chunks.lookup (chunkId lba) = some c := by rw [hchunks]; exact hc
    obtain ⟨hslab, hplace⟩ := slabFor_keeps hopen.fit (hspill file rfl) hct faults
    simp only
    generalize t.slabFor file lba faults = placed at hslab hplace ⊢
    obtain ⟨r, u⟩ := placed
    have hboth := hopen.trans hslab
    cases r with
    | error e => exact ⟨hboth, fun h => by cases h⟩
    | ok p =>
      obtain ⟨slab, file'⟩ := p
      obtain ⟨hfile', c', hc', rfl, hne⟩ := hplace slab file' rfl
      cases faults.writeErr with
      | some w =>
        obtain ⟨n, e⟩ := w
        exact ⟨hboth.trans (writeAt_keeps hslab.fit hfile' hc' hne n.isLt.le), fun h => by cases h⟩
      | none =>
        refine ⟨hboth.trans (writeAt_keeps hslab.fit hfile' hc' hne le_rfl), fun _ => ?_⟩
        refine ⟨_, c', rfl, hc', hne, ?_, fun i => writeAt_bytes i⟩
        exact le_max_right _ _

def chunkOf (s : SectorStore) (lba : Lba) : Chunk := (s.chunks.lookup (chunkId lba)).getD .new

structure SetsBit (lba : Lba) (bit : Bool) (s s' : SectorStore) : Prop where
  spill : s'.spill = s.spill
  spillLen : s'.spillLen = s.spillLen
  chunks : ∃ c, s'.chunks = s.chunks.insert (chunkId lba) c ∧ c.slab = (s.chunkOf lba).slab ∧
    c.present = Function.update (s.chunkOf lba).present (chunkOffset lba) bit

variable {bit : Bool}

/-- A chunk with a slab had it before. -/
theorem SetsBit.old_chunk (h : SetsBit lba bit s s') {id : ℕ} {c' : Chunk}
    (hc' : s'.chunks.lookup id = some c') (hslab : c'.slab ≠ unallocated) :
    ∃ c, s.chunks.lookup id = some c ∧ c.slab = c'.slab := by
  obtain ⟨c, hchunks, hcs, -⟩ := h.chunks
  rw [hchunks] at hc'
  rcases lookup_insert_some hc' with ⟨rfl, rfl⟩ | ⟨-, hc'⟩
  · unfold chunkOf at hcs
    cases hold : s.chunks.lookup (chunkId lba) with
    | none =>
      rw [hold] at hcs
      exact absurd hcs hslab
    | some d =>
      rw [hold] at hcs
      exact ⟨d, rfl, hcs.symm⟩
  · exact ⟨c', hc', rfl⟩

theorem SetsBit.fit (h : SetsBit lba bit s s') (hfit : SlabsFit s) : SlabsFit s' where
  aligned := h.spillLen ▸ hfit.aligned
  fresh := by rw [h.spill, h.spillLen]; exact hfit.fresh
  within := by rw [h.spill, h.spillLen]; exact hfit.within
  slab id c' hc' hslab := by
    obtain ⟨c, hc, hcs⟩ := h.old_chunk hc' hslab
    rw [← hcs, h.spillLen]
    exact hfit.slab id c hc (hcs ▸ hslab)
  distinct i j c' d' hc' hd' hslab heq := by
    obtain ⟨c, hc, hcs⟩ := h.old_chunk hc' hslab
    obtain ⟨d, hd, hds⟩ := h.old_chunk hd' (heq ▸ hslab)
    exact hfit.distinct i j c d hc hd (hcs ▸ hslab) (hcs.trans (heq.trans hds.symm))

theorem SetsBit.spilled (h : SetsBit lba bit s s') {l : Lba}
    (hl : s.Spilled l data) : s'.Spilled l data := by
  obtain ⟨file, chunk, hfile, hchunk, hslab, hlen, hbytes⟩ := hl
  obtain ⟨c, hchunks, hcs, -⟩ := h.chunks
  rw [← h.spill] at hfile
  by_cases hid : chunkId l = chunkId lba
  · have hsame : c.slab = chunk.slab := by
      rw [hcs, chunkOf, ← hid, hchunk]
      rfl
    refine ⟨file, c, hfile, ?_, ?_⟩
    · rw [hchunks, hid, AList.lookup_insert]
    · rw [hsame]
      exact ⟨hslab, hlen, hbytes⟩
  · refine ⟨file, chunk, hfile, ?_, hslab, hlen, hbytes⟩
    rw [hchunks, AList.lookup_insert_ne hid]
    exact hchunk

theorem SetsBit.isPending (h : SetsBit lba bit s s') (l : Lba) :
    s'.isPending l = if l = lba then bit else s.isPending l := by
  obtain ⟨c, hchunks, -, hpres⟩ := h.chunks
  unfold SectorStore.isPending
  rw [hchunks]
  by_cases hid : chunkId l = chunkId lba
  · rw [hid, AList.lookup_insert]
    simp only [Chunk.isPresent, hpres]
    by_cases hl : l = lba
    · subst hl
      rw [if_pos rfl, Function.update_self]
    · rw [if_neg hl, Function.update_of_ne (chunkOffset_ne hl hid), chunkOf]
      cases s.chunks.lookup (chunkId lba) <;> rfl
  · have hl : l ≠ lba := fun hl => hid (congrArg chunkId hl)
    rw [if_neg hl, AList.lookup_insert_ne hid]

end IzarraVM.Katea.SectorStore
