import IzarraVM.SectorStoreSpill
import IzarraVM.StepRuns

/-! The store is a plain map from sectors to the bytes inserted and not acknowledged. -/
namespace IzarraVM.Katea.SectorStore

variable {s : SectorStore} {m : Lba → Option Sector} {lba : Lba} {data : Sector}

structure RepresentsOff (hole : Option Lba) (s : SectorStore) (m : Lba → Option Sector) :
    Prop where
  fit : SlabsFit s
  room : 1 ≤ s.capacity
  pending : ∀ l, some l ≠ hole → s.isPending l = (m l).isSome
  cached : ∀ l q d, s.cache.lookup l = some (q, d) → some l ≠ hole ∧ m l = some d
  spilled : ∀ l d, some l ≠ hole → m l = some d → s.cache.lookup l = none → s.Spilled l d
  ordered : ∀ q l, (q, l) ∈ s.order ↔ ∃ d, s.cache.lookup l = some (q, d)
  dated : ∀ q l, (q, l) ∈ s.order → q ≤ s.seq
  bounded : s.broken = false → s.cache.entries.length ≤ s.capacity

abbrev Represents (s : SectorStore) (m : Lba → Option Sector) : Prop := RepresentsOff none s m

theorem withCapacity_represents (capacity : ℕ) :
    Represents (withCapacity capacity) fun _ => none where
  fit := ⟨rfl, fun _ => rfl, fun _ h => (by cases h), fun _ _ h => (by cases h),
    fun _ _ _ _ h => (by cases h)⟩
  room := le_max_right _ _
  pending _ _ := rfl
  cached _ _ _ h := by cases h
  spilled _ _ _ h := by cases h
  ordered q l := ⟨fun h => absurd h (SortedMap.notMem_empty _), fun ⟨_, h⟩ => (by cases h)⟩
  dated _ _ h := absurd h (SortedMap.notMem_empty _)
  bounded _ := Nat.zero_le _

theorem chunk_of_pending (h : s.isPending lba = true) :
    ∃ c, s.chunks.lookup (chunkId lba) = some c ∧ c.isPresent lba = true := by
  unfold isPending at h
  split at h
  · next c hc => exact ⟨c, hc, h⟩
  · cases h

/-- A read: with a working host the map's answer, with a failing one that or an
error, and never an answer the map does not give. -/
theorem get_spec (h : Represents s m) (lba : Lba) (fault : Option String) :
    (s.get lba fault).1 = .ok (m lba) ∨
      (m lba ≠ none ∧ ∃ e, fault = some e ∧ (s.get lba fault).1 = .error e ∧
        (s.get lba fault).2.readErrors = s.readErrors+1) := by
  unfold SectorStore.get
  cases hcache : s.cache.lookup lba with
  | some entry =>
    left
    exact congrArg _ (h.cached lba entry.1 entry.2 hcache).2.symm
  | none =>
    cases hm : m lba with
    | none =>
      left
      have hpend := h.pending lba (by simp)
      rw [hm] at hpend
      unfold isPending at hpend
      cases hchunk : s.chunks.lookup (chunkId lba) with
      | none => rfl
      | some c =>
        simp only [hchunk, Option.isSome_none] at hpend
        simp only [hpend, Bool.false_eq_true, not_false_eq_true, ↓reduceIte]
    | some d =>
      obtain ⟨c, hc, hpres⟩ := chunk_of_pending
        ((h.pending lba (by simp)).trans (by rw [hm]; rfl))
      obtain ⟨file, c', hfile, hc', hslab, hlen, hbytes⟩ := h.spilled lba d (by simp) hm hcache
      rw [hc] at hc'
      cases hc'
      simp only [hc, hpres, not_true_eq_false, ↓reduceIte, readSpilled, hfile, ne_eq, hslab,
        not_false_eq_true, SpillFile.readExactAt]
      cases fault with
      | some e => exact Or.inr ⟨by simp, e, rfl, rfl, rfl⟩
      | none =>
        left
        simp only [hlen, ↓reduceIte]
        exact congrArg (fun x => Except.ok (some x)) (funext hbytes)

/-- A read changes nothing but the count of failed reads. -/
theorem get_state_eq (s : SectorStore) (lba : Lba) (fault : Option String) :
    (s.get lba fault).2 = { s with readErrors := (s.get lba fault).2.readErrors } := by
  unfold SectorStore.get
  repeat' split
  all_goals rfl

theorem get_represents (h : Represents s m) (lba : Lba) (fault : Option String) :
    Represents (s.get lba fault).2 m := by
  rw [get_state_eq]
  exact { h with fit := { h.fit with } }

section Order

variable (cache : AList fun _ : Lba => ℕ × Sector)

theorem erase_length_le (l : Lba) : (cache.erase l).entries.length ≤ cache.entries.length := by
  have h := congrArg List.length (AList.keys_erase l cache)
  simp only [AList.keys, List.keys, List.length_map] at h
  rw [h]
  exact (List.length_erase_le).trans (by rw [List.length_map])

theorem insert_length (l : Lba) (e : ℕ × Sector) :
    (cache.insert l e).entries.length = (cache.erase l).entries.length+1 := rfl

theorem erase_length_of_lookup {l : Lba} {e : ℕ × Sector} (h : cache.lookup l = some e) :
    (cache.erase l).entries.length+1 = cache.entries.length := by
  have hmem : l ∈ cache.keys := AList.mem_keys.mp (AList.lookup_isSome.mp (by rw [h]; rfl))
  have hkeys := congrArg List.length (AList.keys_erase l cache)
  rw [List.length_erase_of_mem hmem] at hkeys
  have hpos := List.length_pos_of_mem hmem
  simp only [AList.keys, List.keys, List.length_map] at hkeys hpos
  omega

variable {cache} {order : SortedMap ℕ Lba}

theorem mem_of_mem_drop {lba : Lba} {p : ℕ × Lba}
    (h : p ∈ (match cache.lookup lba with
      | some (oldSeq, _) => order.remove oldSeq
      | none => order)) : p ∈ order := by
  split at h
  · exact ((SortedMap.mem_remove _ _).mp h).1
  · exact h

variable (hord : ∀ q l, (q, l) ∈ order ↔ ∃ d, cache.lookup l = some (q, d))
include hord

/-- Dropping the sector that was written at `q` from the cache and from the order. -/
theorem ordered_erase {q : ℕ} {l : Lba} {d : Sector} (hl : cache.lookup l = some (q, d)) (q' : ℕ)
    (l' : Lba) :
    (q', l') ∈ order.remove q ↔ ∃ d, (cache.erase l).lookup l' = some (q', d) := by
  have hmem : (q, l) ∈ order := (hord q l).mpr ⟨d, hl⟩
  rw [SortedMap.mem_remove, hord]
  by_cases hne : l' = l
  · subst hne
    simp only [hl, AList.lookup_erase, reduceCtorEq, exists_false, iff_false, not_and, not_not]
    rintro ⟨d', hd'⟩
    cases hd'
    rfl
  · rw [AList.lookup_erase_ne hne]
    refine ⟨fun h => h.1, fun h => ⟨h, fun hq => hne ?_⟩⟩
    have hmem' := (hord q' l').mpr h
    change q' = q at hq
    rw [hq] at hmem'
    exact order.eq_of_mem q hmem' hmem

/-- The order without the sector's earlier position. -/
theorem ordered_drop (lba : Lba) (q : ℕ) (l : Lba) :
    (q, l) ∈ (match cache.lookup lba with
      | some (oldSeq, _) => order.remove oldSeq
      | none => order) ↔ ∃ d, (cache.erase lba).lookup l = some (q, d) := by
  cases hl : cache.lookup lba with
  | some e => exact ordered_erase hord hl q l
  | none =>
    change (q, l) ∈ order ↔ _
    rw [hord]
    by_cases hne : l = lba
    · subst hne
      simp only [hl, AList.lookup_erase]
    · rw [AList.lookup_erase_ne hne]

end Order

variable {hole : Option Lba}

/-- The victim of an eviction is cached, and its chunk exists. -/
theorem RepresentsOff.victim (h : RepresentsOff hole s m) {q : ℕ} {l : Lba}
    (hfirst : s.order.first? = some (q, l)) :
    ∃ d c, s.cache.lookup l = some (q, d) ∧ some l ≠ hole ∧ m l = some d ∧
      s.chunks.lookup (chunkId l) = some c := by
  obtain ⟨d, hd⟩ := (h.ordered q l).mp (s.order.mem_of_first? hfirst)
  obtain ⟨hne, hm⟩ := h.cached l q d hd
  obtain ⟨c, hc, -⟩ := chunk_of_pending ((h.pending l hne).trans (by rw [hm]; rfl))
  exact ⟨d, c, hd, hne, hm, hc⟩

structure OnlyDrops (s s' : SectorStore) : Prop where
  seq : s'.seq = s.seq
  capacity : s'.capacity = s.capacity
  pending : ∀ l, s'.isPending l = s.isPending l
  order : ∀ p, p ∈ s'.order → p ∈ s.order

theorem OnlyDrops.refl (s : SectorStore) : OnlyDrops s s :=
  ⟨rfl, rfl, fun _ => rfl, fun _ h => h⟩

theorem OnlyDrops.trans {t u : SectorStore} (h : OnlyDrops s t) (h' : OnlyDrops t u) :
    OnlyDrops s u :=
  ⟨h'.seq.trans h.seq, h'.capacity.trans h.capacity, fun l => (h'.pending l).trans (h.pending l),
    fun p hp => h.order p (h'.order p hp)⟩

theorem evictOne_represents (h : RepresentsOff hole s m) (faults : SpillFaults) :
    RepresentsOff hole (s.evictOne faults).2 m ∧
      OnlyDrops s (s.evictOne faults).2 ∧
      ((s.evictOne faults).1 = false →
        (s.evictOne faults).2 = s ∧ s.order.first? = none ∨
          (s.evictOne faults).2.broken = true) := by
  unfold evictOne
  cases hfirst : s.order.first? with
  | none => exact ⟨h, .refl s, fun _ => Or.inl ⟨rfl, rfl⟩⟩
  | some p =>
    obtain ⟨q, l⟩ := p
    obtain ⟨d, c, hd, hne, hm, hc⟩ := h.victim hfirst
    obtain ⟨hkeep, hok⟩ := spillSector_keeps h.fit hc d faults
    have hres := s.spillSector_resident l d faults
    simp only [hd]
    generalize s.spillSector l d faults = spilled at hkeep hok hres ⊢
    obtain ⟨r, t⟩ := spilled
    obtain ⟨hcache, horder, hseq, hcap, hbroken, -⟩ := hres
    simp only at hkeep hok hcache horder hseq hcap hbroken
    cases r with
    | error e =>
      refine ⟨⟨{ hkeep.fit with }, ?_, ?_, ?_, ?_, ?_, ?_, fun hb => by cases hb⟩,
        ⟨hseq, hcap, hkeep.pending, fun p hp => horder ▸ hp⟩, fun _ => Or.inr rfl⟩
      · exact hcap.symm ▸ h.room
      · exact fun l' hl' => (hkeep.pending l').trans (h.pending l' hl')
      · simpa only [hcache] using h.cached
      · -- the victim stays in RAM, so only other sectors are looked for in the file
        intro l' d' hl' hm' hnone
        simp only [hcache] at hnone
        have hne' : l' ≠ l := by
          rintro rfl
          rw [hd] at hnone
          cases hnone
        exact hkeep.spilled l' d' hne' (h.spilled l' d' hl' hm' hnone)
      · simpa only [hcache, horder] using h.ordered
      · simpa only [horder, hseq] using h.dated
    | ok u =>
      refine ⟨⟨{ hkeep.fit with }, ?_, ?_, ?_, ?_, ?_, ?_, ?_⟩,
        ⟨hseq, hcap, hkeep.pending, ?_⟩, fun hf => by cases hf⟩
      · exact hcap.symm ▸ h.room
      · exact fun l' hl' => (hkeep.pending l').trans (h.pending l' hl')
      · intro l' q' d' hl'
        simp only [hcache] at hl'
        exact h.cached l' q' d' (lookup_erase_some hl').2
      · intro l' d' hl' hm' hnone
        simp only [hcache] at hnone
        by_cases he : l' = l
        · subst he
          rw [hm] at hm'
          cases hm'
          exact hok rfl
        · rw [AList.lookup_erase_ne he] at hnone
          exact hkeep.spilled l' d' he (h.spilled l' d' hl' hm' hnone)
      · simpa only [hcache, horder] using ordered_erase h.ordered hd
      · intro q' l' hmem
        simp only [horder, SortedMap.mem_remove] at hmem
        simpa only [hseq] using h.dated q' l' hmem.1
      · intro hb
        simp only [hcache, hcap, hbroken] at hb ⊢
        exact (erase_length_le s.cache l).trans (h.bounded hb)
      · intro p hp
        simp only [horder, SortedMap.mem_remove] at hp
        exact hp.1

/-- A cache at its capacity has a victim. -/
theorem RepresentsOff.first?_ne_none (h : RepresentsOff hole s m)
    (hfull : s.capacity ≤ s.cache.entries.length) : s.order.first? ≠ none := by
  intro hnone
  have hpos : 0 < s.cache.entries.length := lt_of_lt_of_le h.room hfull
  obtain ⟨⟨l, q, d⟩, hmem⟩ := List.exists_mem_of_length_pos hpos
  have hlookup : s.cache.lookup l = some (q, d) := AList.mem_lookup_iff.mpr hmem
  exact s.order.notMem_of_first? hnone (q, l) ((h.ordered q l).mpr ⟨d, hlookup⟩)

/-- The eviction loop keeps the map, and unless the spill is broken it makes room. -/
theorem evictLoop_represents (faults : ℕ → SpillFaults) (n : ℕ) (h : RepresentsOff hole s m) :
    RepresentsOff hole (s.evictLoop faults n) m ∧
      OnlyDrops s (s.evictLoop faults n) ∧
      ((s.evictLoop faults n).broken = false →
        (s.evictLoop faults n).cache.entries.length < s.capacity) := by
  induction s, n using evictLoop.induct faults with
  | case1 s n hfull hevict ih =>
    rw [evictLoop, if_pos hfull, dif_pos hevict]
    obtain ⟨hrep, hdrop, -⟩ := evictOne_represents h (faults n)
    obtain ⟨hrep', hdrop', hroom⟩ := ih hrep
    exact ⟨hrep', hdrop.trans hdrop', hdrop.capacity ▸ hroom⟩
  | case2 s n hfull hevict =>
    rw [evictLoop, if_pos hfull, dif_neg hevict]
    obtain ⟨hrep, hdrop, hstop⟩ := evictOne_represents h (faults n)
    refine ⟨hrep, hdrop, fun hb => ?_⟩
    rcases hstop (Bool.eq_false_iff.mpr hevict) with ⟨-, hnone⟩ | hbroken
    · exact absurd hnone (h.first?_ne_none hfull.1)
    · rw [hbroken] at hb
      cases hb
  | case3 s n hfull =>
    rw [evictLoop, if_neg hfull]
    refine ⟨h, .refl s, fun hb => ?_⟩
    by_contra hge
    exact hfull ⟨not_lt.mp hge, hb⟩

def mark (s : SectorStore) (lba : Lba) : SectorStore :=
  { s with
    seq := s.seq+1
    chunks := s.chunks.insert (chunkId lba)
      { ((s.chunks.lookup (chunkId lba)).getD .new).setPresent lba with lastSeq := s.seq+1 } }

def place (s : SectorStore) (lba : Lba) (seq : ℕ) (data : Sector) : SectorStore :=
  let order :=
    match s.cache.lookup lba with
    | some (oldSeq, _) => s.order.remove oldSeq
    | none => s.order
  { s with cache := s.cache.insert lba (seq, data), order := order.insert seq lba }

theorem insert_eq (s : SectorStore) (lba : Lba) (data : Sector) (faults : ℕ → SpillFaults) :
    s.insert lba data faults =
      (if lba ∈ s.cache then s.mark lba else (s.mark lba).evictLoop faults 0).place lba
        (s.seq+1) data := rfl

theorem mark_setsBit (s : SectorStore) (lba : Lba) : SetsBit lba true s (s.mark lba) :=
  ⟨rfl, rfl, _, rfl, rfl, rfl⟩

/-- Marking a sector leaves everything but its own presence as it was, and that too if it is cached. -/
theorem mark_represents (h : Represents s m)
    (hhole : hole = none ∧ lba ∈ s.cache ∨ hole = some lba ∧ lba ∉ s.cache) :
    RepresentsOff hole (s.mark lba) m where
  fit := (s.mark_setsBit lba).fit h.fit
  room := h.room
  pending l hl := by
    rw [(s.mark_setsBit lba).isPending]
    split_ifs with heq
    · subst heq
      obtain ⟨-, hmem⟩ := hhole.resolve_right fun hoff => hl hoff.1.symm
      obtain ⟨e, he⟩ := Option.isSome_iff_exists.mp (AList.lookup_isSome.mpr hmem)
      rw [(h.cached l e.1 e.2 he).2]
      rfl
    · exact h.pending l (by simp)
  cached l q d hl := by
    refine ⟨?_, (h.cached l q d hl).2⟩
    rcases hhole with ⟨rfl, -⟩ | ⟨rfl, hnot⟩
    · simp
    · rintro ⟨⟩
      exact hnot (AList.lookup_isSome.mp (Option.isSome_of_eq_some hl))
  spilled l d _ hm hl := (s.mark_setsBit lba).spilled (h.spilled l d (by simp) hm hl)
  ordered := h.ordered
  dated q l hl := (h.dated q l hl).trans (Nat.le_succ _)
  bounded := h.bounded

/-- Placing the sector fills the hole. -/
theorem place_represents {seq : ℕ} (h : RepresentsOff hole s m)
    (hhole : hole = none ∨ hole = some lba) (hpend : s.isPending lba = true)
    (hseq : s.seq = seq) (hfresh : ∀ q l, (q, l) ∈ s.order → q < seq)
    (hroom : s.broken = false → (s.cache.erase lba).entries.length < s.capacity) :
    Represents (s.place lba seq data) (Function.update m lba (some data)) := by
  have hoff (l : Lba) (hl : l ≠ lba) : some l ≠ hole := by
    rcases hhole with rfl | rfl
    · simp
    · exact fun h => hl (Option.some.inj h)
  refine ⟨{ h.fit with }, h.room, ?_, ?_, ?_, ?_, ?_, ?_⟩
  · intro l _
    by_cases hl : l = lba
    · subst hl
      rw [Function.update_self]
      exact hpend
    · rw [Function.update_of_ne hl]
      exact h.pending l (hoff l hl)
  · intro l q d hd
    refine ⟨by simp, ?_⟩
    rcases lookup_insert_some hd with ⟨rfl, heq⟩ | ⟨hl, hd⟩
    · rw [Function.update_self, (Prod.mk.inj heq).2]
    · rw [Function.update_of_ne hl]
      exact (h.cached l q d hd).2
  · intro l d _ hm hnone
    by_cases hl : l = lba
    · subst hl
      rw [place, AList.lookup_insert] at hnone
      cases hnone
    · rw [place, AList.lookup_insert_ne hl] at hnone
      rw [Function.update_of_ne hl] at hm
      exact h.spilled l d (hoff l hl) hm hnone
  · intro q l
    rw [place, SortedMap.mem_insert, ordered_drop h.ordered]
    by_cases hl : l = lba
    · subst hl
      simp only [AList.lookup_erase, AList.lookup_insert, Prod.mk.injEq, and_true, reduceCtorEq,
        exists_false, false_and, or_false, Option.some.injEq]
      exact ⟨fun hq => ⟨data, hq.symm, rfl⟩, fun ⟨_, hq, _⟩ => hq.symm⟩
    · rw [AList.lookup_erase_ne hl, AList.lookup_insert_ne hl]
      simp only [Prod.mk.injEq, hl, and_false, false_or]
      refine ⟨fun hq => hq.1, fun hq => ⟨hq, ?_⟩⟩
      exact ne_of_lt (hfresh q l ((h.ordered q l).mpr hq))
  · intro q l hmem
    change q ≤ s.seq
    rw [place, SortedMap.mem_insert] at hmem
    rcases hmem with heq | ⟨hmem, -⟩
    · cases heq
      exact hseq.ge
    · exact h.dated q l (mem_of_mem_drop hmem)
  · intro hb
    change (s.cache.insert lba _).entries.length ≤ s.capacity
    rw [insert_length]
    exact hroom hb

theorem insert_represents (h : Represents s m) (lba : Lba) (data : Sector)
    (faults : ℕ → SpillFaults) :
    Represents (s.insert lba data faults) (Function.update m lba (some data)) ∧
      (s.insert lba data faults).capacity = s.capacity := by
  have hpend : (s.mark lba).isPending lba = true := by
    rw [(s.mark_setsBit lba).isPending, if_pos rfl]
  rw [insert_eq]
  cases hlookup : s.cache.lookup lba with
  | some e =>
    have hmem : lba ∈ s.cache := AList.lookup_isSome.mp (by rw [hlookup]; rfl)
    rw [if_pos hmem]
    refine ⟨place_represents (mark_represents h (.inl ⟨rfl, hmem⟩)) (Or.inl rfl) hpend rfl ?_ ?_,
      rfl⟩
    · exact fun q l hq => Nat.lt_succ_of_le (h.dated q l hq)
    · intro hb
      have hbound := h.bounded hb
      have hlen := erase_length_of_lookup s.cache hlookup
      change (s.cache.erase lba).entries.length < s.capacity
      omega
  | none =>
    have hmem : lba ∉ s.cache := AList.lookup_eq_none.mp hlookup
    rw [if_neg hmem]
    obtain ⟨hrep, hdrop, hroom⟩ :=
      evictLoop_represents faults 0 (mark_represents h (.inr ⟨rfl, hmem⟩))
    refine ⟨place_represents hrep (Or.inr rfl) ((hdrop.pending lba).trans hpend) hdrop.seq ?_ ?_,
      hdrop.capacity⟩
    · exact fun q l hq => Nat.lt_succ_of_le (h.dated q l (hdrop.order _ hq))
    · intro hb
      rw [hdrop.capacity]
      exact lt_of_le_of_lt (erase_length_le _ lba) (hroom hb)

theorem acknowledge_setsBit {c : Chunk} (hc : s.chunks.lookup (chunkId lba) = some c) :
    SetsBit lba false s (s.acknowledge lba) := by
  refine ⟨rfl, rfl, c.clearPresent lba, ?_, ?_, ?_⟩
  · simp only [acknowledge, hc]
  · rw [chunkOf, hc]
    rfl
  · rw [chunkOf, hc]
    rfl

/-- A sector of a chunk the store does not know has nothing to clear. -/
theorem acknowledge_unknown (hc : s.chunks.lookup (chunkId lba) = none) :
    ∃ order, s.acknowledge lba = { s with cache := s.cache.erase lba, order } :=
  ⟨_, by simp only [acknowledge, hc]; rfl⟩

theorem acknowledge_represents (h : Represents s m) (lba : Lba) :
    Represents (s.acknowledge lba) (Function.update m lba none) := by
  have hbits : SlabsFit (s.acknowledge lba) ∧
      (∀ l, (s.acknowledge lba).isPending l = if l = lba then false else s.isPending l) ∧
      ∀ l d, s.Spilled l d → (s.acknowledge lba).Spilled l d := by
    cases hc : s.chunks.lookup (chunkId lba) with
    | some c =>
      have hset := acknowledge_setsBit hc
      exact ⟨hset.fit h.fit, hset.isPending, fun l d => hset.spilled⟩
    | none =>
      obtain ⟨order, heq⟩ := acknowledge_unknown hc
      rw [heq]
      refine ⟨{ h.fit with }, fun l => ?_, fun l d hd => hd⟩
      show s.isPending l = _
      by_cases hl : l = lba
      · rw [if_pos hl, hl, isPending, hc]
      · rw [if_neg hl]
  obtain ⟨hfit, hpend, hspill⟩ := hbits
  refine ⟨hfit, h.room, ?_, ?_, ?_, ordered_drop h.ordered lba, ?_, ?_⟩
  · intro l _
    rw [hpend]
    by_cases hl : l = lba
    · rw [if_pos hl, hl, Function.update_self]
      rfl
    · rw [if_neg hl, Function.update_of_ne hl]
      exact h.pending l (by simp)
  · intro l q d hd
    refine ⟨by simp, ?_⟩
    change (s.cache.erase lba).lookup l = _ at hd
    obtain ⟨hl, hd⟩ := lookup_erase_some hd
    rw [Function.update_of_ne hl]
    exact (h.cached l q d hd).2
  · intro l d _ hm hnone
    change (s.cache.erase lba).lookup l = _ at hnone
    by_cases hl : l = lba
    · subst hl
      rw [Function.update_self] at hm
      cases hm
    · rw [AList.lookup_erase_ne hl] at hnone
      rw [Function.update_of_ne hl] at hm
      exact hspill l d (h.spilled l d (by simp) hm hnone)
  · exact fun q l hq => h.dated q l (mem_of_mem_drop hq)
  · exact fun hb => (erase_length_le s.cache lba).trans (h.bounded hb)

inductive StoreOp where
  | insert (lba : Lba) (data : Sector) (faults : ℕ → SpillFaults)
  | get (lba : Lba) (fault : Option String)
  | acknowledge (lba : Lba)
  | evictOne (faults : SpillFaults)

def step (s : SectorStore) : StoreOp → SectorStore
  | .insert lba data faults => s.insert lba data faults
  | .get lba fault => (s.get lba fault).2
  | .acknowledge lba => s.acknowledge lba
  | .evictOne faults => (s.evictOne faults).2

def mapStep (m : Lba → Option Sector) : StoreOp → Lba → Option Sector
  | .insert lba data _ => Function.update m lba (some data)
  | .get _ _ => m
  | .acknowledge lba => Function.update m lba none
  | .evictOne _ => m

theorem step_represents {capacity : ℕ} (op : StoreOp)
    (h : Represents s m ∧ s.capacity = capacity) :
    Represents (s.step op) (mapStep m op) ∧ (s.step op).capacity = capacity := by
  obtain ⟨h, hcap⟩ := h
  cases op with
  | insert lba data faults =>
    obtain ⟨hrep, hcap'⟩ := insert_represents h lba data faults
    exact ⟨hrep, hcap'.trans hcap⟩
  | get lba fault =>
    refine ⟨get_represents h lba fault, Eq.trans ?_ hcap⟩
    change (s.get lba fault).2.capacity = s.capacity
    rw [get_state_eq]
  | acknowledge lba => exact ⟨acknowledge_represents h lba, hcap⟩
  | evictOne faults =>
    obtain ⟨hrep, hdrop, -⟩ := evictOne_represents h faults
    exact ⟨hrep, hdrop.capacity.trans hcap⟩

/-- After any operations under any host failures, a read that succeeds gives the
bytes of the last unacknowledged insert, or nothing when there is none. A read that
fails is of a sector that was inserted, is counted, and is the host's own failure.
Until a spill has failed the cache is within its capacity. -/
theorem store_refines_map (capacity : ℕ) (ops : List StoreOp) :
    let s := Runs.exec step ops (withCapacity capacity)
    let m := Runs.exec mapStep ops fun _ => none
    (∀ lba fault found, (s.get lba fault).1 = .ok found → found = m lba) ∧
      (∀ lba fault e, (s.get lba fault).1 = .error e →
        m lba ≠ none ∧ fault = some e ∧ (s.get lba fault).2.readErrors = s.readErrors+1) ∧
      (s.broken = false → s.cache.entries.length ≤ max capacity 1) := by
  intro s m
  obtain ⟨hrep, hcap⟩ : Represents s m ∧ s.capacity = max capacity 1 :=
    Runs.exec_related (R := fun s m => Represents s m ∧ s.capacity = max capacity 1)
      (fun _ _ op h => step_represents op h) ops ⟨withCapacity_represents capacity, rfl⟩
  refine ⟨?_, ?_, fun hb => hcap ▸ hrep.bounded hb⟩
  · intro lba fault found hget
    rcases get_spec hrep lba fault with hok | ⟨-, e, -, herr, -⟩
    · exact Except.ok.inj (hget.symm.trans hok)
    · rw [herr] at hget
      cases hget
  · intro lba fault e hget
    rcases get_spec hrep lba fault with hok | ⟨hm, e', hfault, herr, hcount⟩
    · rw [hok] at hget
      cases hget
    · rw [herr] at hget
      cases hget
      exact ⟨hm, hfault, hcount⟩

end IzarraVM.Katea.SectorStore
