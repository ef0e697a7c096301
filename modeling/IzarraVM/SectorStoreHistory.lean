import IzarraVM.SectorStoreRefines

/-! What a store remembers of the writes, whatever is evicted or acknowledged. -/
namespace IzarraVM.Katea.SectorStore

variable {s s' : SectorStore}

def chunkLastSeq (s : SectorStore) (id : ℕ) : ℕ := ((s.chunks.lookup id).map Chunk.lastSeq).getD 0

structure SameHistory (s s' : SectorStore) : Prop where
  seq : s'.seq = s.seq
  written : ∀ l, s'.wasWritten l = s.wasWritten l
  last : ∀ id, s'.chunkLastSeq id = s.chunkLastSeq id

theorem SameHistory.refl (s : SectorStore) : SameHistory s s := ⟨rfl, fun _ => rfl, fun _ => rfl⟩

theorem SameHistory.trans {t : SectorStore} (h : SameHistory s s') (h' : SameHistory s' t) :
    SameHistory s t :=
  ⟨h'.seq.trans h.seq, fun l => (h'.written l).trans (h.written l),
    fun id => (h'.last id).trans (h.last id)⟩

/-- A chunk is replaced by one with the same history. -/
theorem SameHistory.of_insert {id : ℕ} {c c' : Chunk} (hc : s.chunks.lookup id = some c)
    (hchunks : s'.chunks = s.chunks.insert id c') (hseq : s'.seq = s.seq)
    (hwritten : c'.written = c.written) (hlast : c'.lastSeq = c.lastSeq) : SameHistory s s' := by
  refine ⟨hseq, fun l => ?_, fun i => ?_⟩
  · unfold wasWritten
    rw [hchunks]
    by_cases hid : chunkId l = id
    · rw [hid, AList.lookup_insert, hc]
      exact congrFun hwritten _
    · rw [AList.lookup_insert_ne hid]
  · unfold chunkLastSeq
    rw [hchunks]
    by_cases hid : i = id
    · rw [hid, AList.lookup_insert, hc]
      exact hlast
    · rw [AList.lookup_insert_ne hid]

variable (s)

theorem openSpill_history (faults : SpillFaults) : SameHistory s (s.openSpill faults).2 := by
  unfold openSpill
  split
  · exact .refl s
  · split <;> exact { SameHistory.refl s with }

theorem slabFor_history (file : SpillFile) (lba : Lba) (faults : SpillFaults) :
    SameHistory s (s.slabFor file lba faults).2 := by
  unfold slabFor
  dsimp only
  split
  · next chunk hchunk =>
    split_ifs
    · exact .refl s
    · split
      · exact .refl s
      · exact .of_insert hchunk rfl rfl rfl rfl
  · split <;> exact { SameHistory.refl s with }

theorem spillSector_history (lba : Lba) (data : Sector) (faults : SpillFaults) :
    SameHistory s (s.spillSector lba data faults).2 := by
  have hopen := s.openSpill_history faults
  unfold spillSector
  split
  · next e t ht => rwa [ht] at hopen
  · next file t ht =>
    rw [ht] at hopen
    have hslab := t.slabFor_history file lba faults
    split
    · next e u hu =>
      rw [hu] at hslab
      exact hopen.trans hslab
    · next slab file' u hu =>
      rw [hu] at hslab
      have hboth := hopen.trans hslab
      split <;> exact { hboth with }

theorem evictOne_history (faults : SpillFaults) : SameHistory s (s.evictOne faults).2 := by
  unfold evictOne
  cases s.order.first? with
  | none => exact .refl s
  | some victim =>
    cases hdata : s.cache.lookup victim.2 with
    | none =>
      simp only [hdata]
      exact { SameHistory.refl s with }
    | some entry =>
      have hspill := s.spillSector_history victim.2 entry.2 faults
      simp only [hdata]
      split
      all_goals
        next t ht =>
        rw [ht] at hspill
        exact { hspill with }

theorem evictLoop_history (faults : ℕ → SpillFaults) (n : ℕ) :
    SameHistory s (s.evictLoop faults n) := by
  induction s, n using evictLoop.induct faults with
  | case1 s n hfull hevict ih =>
    rw [evictLoop, if_pos hfull, dif_pos hevict]
    exact (s.evictOne_history (faults n)).trans ih
  | case2 s n hfull hevict =>
    rw [evictLoop, if_pos hfull, dif_neg hevict]
    exact s.evictOne_history (faults n)
  | case3 s n hfull =>
    rw [evictLoop, if_neg hfull]
    exact .refl s

theorem acknowledge_history (lba : Lba) : SameHistory s (s.acknowledge lba) := by
  cases hc : s.chunks.lookup (chunkId lba) with
  | none =>
    obtain ⟨order, heq⟩ := acknowledge_unknown hc
    rw [heq]
    exact { SameHistory.refl s with }
  | some c =>
    have hchunks : (s.acknowledge lba).chunks =
        s.chunks.insert (chunkId lba) (c.clearPresent lba) := by
      simp only [acknowledge, hc]
    exact .of_insert hc hchunks rfl rfl rfl

variable (lba : Lba) (data : Sector) (faults : ℕ → SpillFaults)

/-- All that an insert adds to the history is its mark. -/
theorem insert_history : SameHistory (s.mark lba) (s.insert lba data faults) := by
  rw [insert_eq]
  have hroom : SameHistory (s.mark lba)
      (if lba ∈ s.cache then s.mark lba else (s.mark lba).evictLoop faults 0) := by
    split_ifs
    · exact .refl _
    · exact evictLoop_history _ faults 0
  exact { hroom with }

theorem insert_seq : (s.insert lba data faults).seq = s.seq+1 :=
  (s.insert_history lba data faults).seq

theorem insert_wasWritten (l : Lba) :
    (s.insert lba data faults).wasWritten l = (decide (l = lba) || s.wasWritten l) := by
  rw [(s.insert_history lba data faults).written]
  unfold mark wasWritten
  by_cases hid : chunkId l = chunkId lba
  · rw [hid, AList.lookup_insert]
    simp only [Chunk.wasWritten, Chunk.setPresent]
    by_cases hl : l = lba
    · rw [hl, Function.update_self, decide_eq_true rfl, Bool.true_or]
    · rw [Function.update_of_ne (chunkOffset_ne hl hid), decide_eq_false hl, Bool.false_or]
      cases s.chunks.lookup (chunkId lba) <;> rfl
  · have hl : l ≠ lba := fun h => hid (congrArg chunkId h)
    rw [AList.lookup_insert_ne hid, decide_eq_false hl, Bool.false_or]

theorem insert_chunkLastSeq (id : ℕ) : (s.insert lba data faults).chunkLastSeq id =
      if id = chunkId lba then s.seq+1 else s.chunkLastSeq id := by
  rw [(s.insert_history lba data faults).last]
  unfold mark chunkLastSeq
  by_cases hid : id = chunkId lba
  · rw [if_pos hid, hid, AList.lookup_insert]
    rfl
  · rw [if_neg hid, AList.lookup_insert_ne hid]

end IzarraVM.Katea.SectorStore
