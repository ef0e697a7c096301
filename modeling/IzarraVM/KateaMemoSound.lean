import IzarraVM.KateaMemoWalk
import IzarraVM.KateaSeeds

/-! The memo of chains tells the truth: what it serves is the chain that the FAT holds. -/
namespace IzarraVM.Katea

open EpochMemo

def Answers (geo : Geometry) (fat : ClusterIndex) (first : ℕ) (result : Option (List ℕ))
    (view : ℕ → Option Sector) : Prop :=
  ∀ (f : Facade) (host : HostFiles), f.geo = geo → f.fat = fat → (∀ w, f.fatCopy w = view w) →
    Facade.chainOf f.stored f host first = result

def Covers (f : Facade) (chunks chain : List ℕ) : Prop :=
  ∀ c ∈ chain, f.clusterInRange c = true →
    ∀ l ∈ List.range' (f.clusterToLba c 0) f.geo.spc, l ≤ u32Max → chunkId l ∈ chunks

structure FactsHold (f : Facade) (facts : MemoFacts) (chain : List ℕ) : Prop where
  inRange : facts.allInRange = chain.all f.clusterInRange
  covered : Covers f facts.dataChunks chain
  past : facts.dataSeq ≤ f.store.seq
  written : facts.dataWritten = true → chain.any f.clusterWritten = true
  unwritten : facts.dataWritten = false →
    (∀ id ∈ facts.dataChunks, f.store.chunkLastSeq id ≤ facts.dataSeq) →
      chain.any f.clusterWritten = false

section Layout

variable {f f' : Facade} (hgeo : f'.geo = f.geo)
include hgeo

theorem clusterInRange_congr (c : ℕ) :
    f'.clusterInRange c = f.clusterInRange c := by
  unfold Facade.clusterInRange
  rw [hgeo]

theorem clusterToLba_congr (c s : ℕ) :
    f'.clusterToLba c s = f.clusterToLba c s := by
  unfold Facade.clusterToLba
  rw [hgeo]

theorem Covers.congr {chunks chain : List ℕ} (h : Covers f chunks chain) :
    Covers f' chunks chain := by
  intro c hc hin l hl
  rw [clusterToLba_congr hgeo, hgeo] at hl
  rw [clusterInRange_congr hgeo] at hin
  exact h c hc hin l hl

theorem clusterWritten_congr (hwritten : ∀ l, f'.store.wasWritten l = f.store.wasWritten l) (c : ℕ) :
    f'.clusterWritten c = f.clusterWritten c := by
  unfold Facade.clusterWritten SectorStore.wasWrittenSpan
  rw [clusterInRange_congr hgeo, clusterToLba_congr hgeo, hgeo, funext hwritten]

end Layout

namespace FactsHold

variable {f f' : Facade} {facts : MemoFacts} {chain : List ℕ}

/-- The chunks under the clusters of a chain, as `chain_facts` collects them. -/
theorem mem_clusterChunks {c l : ℕ} (hl : l ∈ List.range' (f.clusterToLba c 0) f.geo.spc)
    (hmax : l ≤ u32Max) : chunkId l ∈ f.clusterChunks c := by
  rw [List.mem_range'_1] at hl
  have hlast : l ≤ min (f.clusterToLba c 0+(f.geo.spc-1)) u32Max := by omega
  have hfirst : chunkId (f.clusterToLba c 0) ≤ chunkId l := Nat.div_le_div_right hl.1
  have hid : chunkId l ≤ chunkId (min (f.clusterToLba c 0+(f.geo.spc-1)) u32Max) :=
    Nat.div_le_div_right hlast
  unfold Facade.clusterChunks
  rw [List.mem_range'_1]
  omega

/-- Facts computed now. -/
theorem now (f : Facade) (chain : List ℕ) : FactsHold f (f.chainFacts (some chain)) chain where
  inRange := rfl
  covered c hc hrange l hl hmax := by
    simp only [Facade.chainFacts, List.mem_dedup, List.mem_mergeSort, List.mem_flatMap,
      List.mem_filter]
    exact ⟨c, ⟨hc, hrange⟩, mem_clusterChunks hl hmax⟩
  past := Nat.le_refl _
  written h := h
  unwritten h _ := h

/-- The facts depend on the layout and the history of the store. -/
theorem congr (h : FactsHold f facts chain) (hgeo : f'.geo = f.geo)
    (hstore : f.store.SameHistory f'.store) : FactsHold f' facts chain := by
  have hrange := funext (clusterInRange_congr hgeo)
  have hcluster := funext (clusterWritten_congr hgeo hstore.written)
  refine ⟨?_, h.covered.congr hgeo, ?_, ?_, ?_⟩
  · rw [hrange]
    exact h.inRange
  · rw [hstore.seq]
    exact h.past
  · rw [hcluster]
    exact h.written
  · intro hfalse hseq
    rw [hcluster]
    refine h.unwritten hfalse fun id hid => ?_
    rw [← hstore.last]
    exact hseq id hid

/-- A write raises the date of its chunk, so it cannot go unnoticed. -/
theorem write (h : FactsHold f facts chain) {lba : ℕ} {data : Sector} {faults : ℕ → SpillFaults}
    (hlba : lba ≤ u32Max) (hgeo : f'.geo = f.geo)
    (hstore : f'.store = f.store.insert lba data faults) : FactsHold f' facts chain := by
  have hrange := funext (clusterInRange_congr hgeo)
  have hbits : ∀ l, f'.store.wasWritten l = (decide (l = lba) || f.store.wasWritten l) := by
    intro l
    rw [hstore]
    exact f.store.insert_wasWritten lba data faults l
  refine ⟨?_, h.covered.congr hgeo, ?_, ?_, ?_⟩
  · rw [hrange]
    exact h.inRange
  · rw [hstore, SectorStore.insert_seq]
    exact Nat.le_succ_of_le h.past
  · intro hwritten
    obtain ⟨c, hc, hcw⟩ := List.any_eq_true.mp (h.written hwritten)
    refine List.any_eq_true.mpr ⟨c, hc, ?_⟩
    simp only [Facade.clusterWritten, SectorStore.wasWrittenSpan, Bool.and_eq_true,
      List.any_eq_true] at hcw ⊢
    obtain ⟨hin, l, hl, hlw⟩ := hcw
    rw [hrange, clusterToLba_congr hgeo, hgeo]
    exact ⟨hin, l, hl, by rw [hbits, hlw, Bool.or_true]⟩
  · intro hfalse hseq
    -- the written chunk is newer than the facts, so it is not one of theirs
    have hother : chunkId lba ∉ facts.dataChunks := by
      intro hmem
      have hle := hseq _ hmem
      rw [hstore, SectorStore.insert_chunkLastSeq, if_pos rfl] at hle
      exact absurd h.past (by omega)
    have hold : chain.any f.clusterWritten = false := by
      refine h.unwritten hfalse fun id hid => ?_
      have hle := hseq id hid
      have hne : id ≠ chunkId lba := by
        rintro rfl
        exact hother hid
      rwa [hstore, SectorStore.insert_chunkLastSeq, if_neg hne] at hle
    rw [List.any_eq_false] at hold ⊢
    intro c hc hcw
    apply hold c hc
    simp only [Facade.clusterWritten, SectorStore.wasWrittenSpan, Bool.and_eq_true,
      List.any_eq_true] at hcw ⊢
    obtain ⟨hin, l, hl, hlw⟩ := hcw
    rw [clusterToLba_congr hgeo, hgeo] at hl
    rw [hrange] at hin
    refine ⟨hin, l, hl, ?_⟩
    have hne : l ≠ lba := by
      rintro rfl
      exact hother (h.covered c hc hin l hl hlba)
    rwa [hbits, decide_eq_false hne, Bool.false_or] at hlw

end FactsHold

structure Kept (v : MemoVolume) (first : ℕ) (memo : ChainMemo) : Prop where
  dated : Dated v.fat v.facade.fatCopy (Answers v.facade.geo v.facade.fat first memo.result)
    memo.epoch memo.sectors
  facts : v.chainMemoIsCurrent memo = true → ∀ chain, memo.result = some chain →
    FactsHold v.facade memo.toMemoFacts chain

structure MemoSound (v : MemoVolume) : Prop where
  stores : ∃ m, v.facade.store.Represents m
  kept : ∀ first memo, v.chainMemo.lookup first = some memo → Kept v first memo

namespace MemoSound

variable {v : MemoVolume}

theorem held_kept (h : MemoSound v) {first : ℕ} {memo : ChainMemo}
    (hheld : v.held first = some memo) :
    v.chainMemo.lookup first = some memo ∧ v.chainMemoIsCurrent memo = true ∧ Kept v first memo := by
  obtain ⟨hlookup, hcurrent⟩ := Option.filter_eq_some_iff.mp hheld
  exact ⟨hlookup, hcurrent, h.kept first memo hlookup⟩

/-- An entry that is served is the chain of the FAT as it was written. -/
theorem held_result (h : MemoSound v) {first : ℕ} {memo : ChainMemo}
    (hheld : v.held first = some memo) (host : HostFiles) :
    memo.result = Facade.chainOf v.facade.stored v.facade host first := by
  obtain ⟨-, hcurrent, hkept⟩ := h.held_kept hheld
  exact (hkept.dated.right_of_current hcurrent v.facade host rfl rfl fun _ => rfl).symm

/-- A walk that was not degraded is worth keeping. -/
theorem fresh_kept (v : MemoVolume) {host : HostFiles} {faults : ℕ → Option String} {first : ℕ}
    (hclean : (v.facade.freshWalk host faults first).2.degraded = false) :
    Kept v first (v.walked (v.facade.freshWalk host faults first)) := by
  refine ⟨.now ?_, fun _ chain hchain => ?_⟩
  · intro view hview f' host' hgeo hfat hcopy
    apply Facade.freshWalk_eq hgeo hfat faults hclean
    intro w hw
    rw [hcopy, hview w hw]
  · change FactsHold v.facade (v.facade.chainFacts (v.facade.freshWalk host faults first).1) chain
    rw [show (v.facade.freshWalk host faults first).1 = some chain from hchain]
    exact .now v.facade chain

theorem lookup_keep {first first' : ℕ} {memo memo' : ChainMemo}
    (h : (v.keep first memo).chainMemo.lookup first' = some memo') :
    first' = first ∧ memo' = memo ∨ v.chainMemo.lookup first' = some memo' := by
  unfold MemoVolume.keep at h
  rcases lookup_insert_some h with hkept | ⟨-, h⟩
  · exact .inl hkept
  · split_ifs at h
    · cases h
    · exact .inr h

/-- What a query sees of the disk is not changed by what the memo holds. -/
theorem with_memo (h : MemoSound v) {memos : AList fun _ : ℕ => ChainMemo}
    (hkept : ∀ first memo, memos.lookup first = some memo →
      v.chainMemo.lookup first = some memo ∨ Kept v first memo) :
    MemoSound { v with chainMemo := memos } := by
  refine ⟨h.stores, fun first memo hlookup => ?_⟩
  have hthere : Kept v first memo := (hkept first memo hlookup).elim (h.kept first memo) id
  exact ⟨hthere.dated, hthere.facts⟩

variable (v) (host : HostFiles) (faults : ℕ → Option String) (first : ℕ)

/-- How a chain is answered: by the memo, or by a walk, which is kept unless it was degraded. -/
theorem chainOf_cases :
    (∃ memo, v.held first = some memo ∧ v.chainOf host faults first = (memo.result, v)) ∨
    (v.held first = none ∧ (v.facade.freshWalk host faults first).2.degraded = true ∧
      v.chainOf host faults first = ((v.facade.freshWalk host faults first).1, v)) ∨
    (v.held first = none ∧ (v.facade.freshWalk host faults first).2.degraded = false ∧
      v.chainOf host faults first = ((v.facade.freshWalk host faults first).1,
        v.keep first (v.walked (v.facade.freshWalk host faults first)))) := by
  unfold MemoVolume.chainOf MemoVolume.chainWithToken
  cases hheld : v.held first with
  | some memo => exact .inl ⟨memo, rfl, rfl⟩
  | none =>
    cases hbad : (v.facade.freshWalk host faults first).2.degraded with
    | true =>
      refine .inr (.inl ⟨rfl, rfl, ?_⟩)
      simp only [hbad, if_true]
    | false =>
      refine .inr (.inr ⟨rfl, rfl, ?_⟩)
      simp only [hbad, Bool.false_eq_true, if_false]

variable {v}

theorem keep_sound (h : MemoSound v) {first : ℕ} {memo : ChainMemo} (hkept : Kept v first memo) :
    MemoSound (v.keep first memo) := by
  refine h.with_memo fun first' memo' hlookup => ?_
  rcases lookup_keep (v := v) hlookup with ⟨rfl, rfl⟩ | hold
  · exact .inr hkept
  · exact .inl hold

theorem chainOf_sound (h : MemoSound v) : MemoSound (v.chainOf host faults first).2 := by
  rcases chainOf_cases v host faults first with ⟨memo, -, heq⟩ | ⟨-, -, heq⟩ | ⟨-, hclean, heq⟩
  · rw [heq]
    exact h
  · rw [heq]
    exact h
  · rw [heq]
    exact h.keep_sound (fresh_kept v hclean)

/-- Looking again at an entry whose chunks were written keeps it right. -/
theorem revalidate_holds {memo : ChainMemo} {chain : List ℕ}
    (h : FactsHold v.facade memo.toMemoFacts chain) :
    FactsHold v.facade (v.revalidate chain memo).toMemoFacts chain ∧
      (v.revalidate chain memo).dataWritten = chain.any v.facade.clusterWritten := by
  unfold MemoVolume.revalidate
  split_ifs with hstale
  · exact ⟨⟨h.inRange, h.covered, Nat.le_refl _, fun hw => hw, fun hw _ => hw⟩, rfl⟩
  · refine ⟨h, ?_⟩
    cases hw : memo.dataWritten with
    | true => exact (h.written hw).symm
    | false =>
      symm
      apply h.unwritten hw
      simpa [hw] using hstale

theorem revalidate_kept {first : ℕ} {memo : ChainMemo} {chain : List ℕ} (h : Kept v first memo)
    (hresult : v.chainMemoIsCurrent memo = true → memo.result = some chain) :
    Kept v first (v.revalidate chain memo) := by
  have hsame : (v.revalidate chain memo).result = memo.result ∧
      (v.revalidate chain memo).sectors = memo.sectors ∧
      (v.revalidate chain memo).epoch = memo.epoch := by
    unfold MemoVolume.revalidate
    split_ifs
    all_goals exact ⟨rfl, rfl, rfl⟩
  obtain ⟨hres, hsectors, hepoch⟩ := hsame
  refine ⟨?_, fun hcurrent chain' hchain' => ?_⟩
  · rw [hres, hsectors, hepoch]
    exact h.dated
  · unfold MemoVolume.chainMemoIsCurrent at hcurrent
    rw [hsectors, hepoch] at hcurrent
    rw [hres, hresult hcurrent] at hchain'
    cases hchain'
    exact (revalidate_holds (h.facts hcurrent chain (hresult hcurrent))).1

theorem factsFor_sound (h : MemoSound v) {first : ℕ} {chain : List ℕ}
    (hresult : ∀ memo, v.chainMemo.lookup first = some memo → v.chainMemoIsCurrent memo = true →
      memo.result = some chain) : MemoSound (v.factsFor first chain).2 := by
  unfold MemoVolume.factsFor
  cases hlookup : v.chainMemo.lookup first with
  | none => exact h
  | some memo =>
    refine h.with_memo fun first' memo' hlookup' => ?_
    rcases lookup_insert_some hlookup' with ⟨rfl, rfl⟩ | ⟨-, hlookup'⟩
    · exact .inr (revalidate_kept (h.kept _ memo hlookup) (hresult memo hlookup))
    · exact .inl hlookup'

/-- The facts served from a current entry are those of its chain. -/
theorem factsFor_eq (h : MemoSound v) {first : ℕ} {chain : List ℕ}
    (hresult : ∀ memo, v.chainMemo.lookup first = some memo →
      v.chainMemoIsCurrent memo = true ∧ memo.result = some chain) :
    (v.factsFor first chain).1 = v.facade.factsOf chain := by
  unfold MemoVolume.factsFor
  cases hlookup : v.chainMemo.lookup first with
  | none => rfl
  | some memo =>
    obtain ⟨hcurrent, hres⟩ := hresult memo hlookup
    obtain ⟨hholds, hwritten⟩ :=
      revalidate_holds ((h.kept first memo hlookup).facts hcurrent chain hres)
    simp only [hholds.inRange, hwritten, Facade.factsOf]

variable (v)

/-- After a chain was asked for, an entry of it that is current holds the answer. -/
theorem result_of_current (memo : ChainMemo)
    (hlookup : (v.chainOf host faults first).2.chainMemo.lookup first = some memo)
    (hcurrent : (v.chainOf host faults first).2.chainMemoIsCurrent memo = true) :
    memo.result = (v.chainOf host faults first).1 := by
  rcases chainOf_cases v host faults first with ⟨memo', hheld, heq⟩ | ⟨hheld, -, heq⟩ | ⟨-, -, heq⟩
  · rw [heq] at hlookup ⊢
    have hlookup' := (Option.filter_eq_some_iff.mp hheld).1
    rw [hlookup] at hlookup'
    cases hlookup'
    rfl
  · -- the entry that is there does not answer, so it is outdated
    rw [heq] at hlookup hcurrent
    have hsome : v.held first = some memo := Option.filter_eq_some_iff.mpr ⟨hlookup, hcurrent⟩
    rw [hheld] at hsome
    cases hsome
  · rw [heq] at hlookup ⊢
    unfold MemoVolume.keep at hlookup
    rw [AList.lookup_insert] at hlookup
    cases hlookup
    rfl

theorem chainAndFacts_eq : v.chainAndFacts host faults first =
      match (v.chainOf host faults first).1 with
      | none => (none, (v.chainOf host faults first).2)
      | some chain => (some ((v.chainOf host faults first).2.factsFor first chain).1,
          ((v.chainOf host faults first).2.factsFor first chain).2) := by
  unfold MemoVolume.chainAndFacts
  cases v.chainOf host faults first with
  | mk chain v' => cases chain <;> rfl

theorem chainAndFacts_sound {v : MemoVolume} (h : MemoSound v) :
    MemoSound (v.chainAndFacts host faults first).2 := by
  have hafter := h.chainOf_sound host faults first
  rw [chainAndFacts_eq]
  cases hchain : (v.chainOf host faults first).1 with
  | none => exact hafter
  | some chain =>
    refine hafter.factsFor_sound fun memo hlookup hcurrent => ?_
    rw [result_of_current v host faults first memo hlookup hcurrent, hchain]

end MemoSound

structure Stamped (v v' : MemoVolume) : Prop where
  geo : v'.facade.geo = v.facade.geo
  base : v'.facade.fat = v.facade.fat
  stores : (∃ m, v.facade.store.Represents m) → ∃ m, v'.facade.store.Represents m
  facts : ∀ facts chain, FactsHold v.facade facts chain → FactsHold v'.facade facts chain
  memo : v'.chainMemo = v.chainMemo
  copy : (v'.fat = v.fat ∧ ∀ w, v'.facade.fatCopy w = v.facade.fatCopy w) ∨
    ∃ i, v'.fat = v.fat.touch i ∧ ∀ w, w ≠ i → v'.facade.fatCopy w = v.facade.fatCopy w

namespace Stamped

variable {v v' : MemoVolume}

theorem dated (h : Stamped v v') {first epoch : ℕ} {result : Option (List ℕ)} {sectors : List ℕ}
    (hdated : Dated v.fat v.facade.fatCopy (Answers v.facade.geo v.facade.fat first result) epoch
      sectors) :
    Dated v'.fat v'.facade.fatCopy (Answers v'.facade.geo v'.facade.fat first result) epoch
      sectors := by
  rw [h.geo, h.base]
  rcases h.copy with ⟨hfat, hcopy⟩ | ⟨i, hfat, hcopy⟩
  · rw [hfat]
    exact hdated.congr hcopy
  · rw [hfat]
    exact hdated.touch hcopy

/-- What is current after the stamp was current before it. -/
theorem current_before (h : Stamped v v') {epoch : ℕ} {sectors : List ℕ} (hpast : epoch ≤ v.fat.epoch)
    (hcurrent : v'.fat.isCurrent epoch sectors = true) : v.fat.isCurrent epoch sectors = true := by
  rcases h.copy with ⟨hfat, -⟩ | ⟨i, hfat, -⟩
  · rwa [hfat] at hcurrent
  · rw [hfat] at hcurrent
    exact (Stamps.isCurrent_of_touch hpast hcurrent).1

theorem kept (h : Stamped v v') {first : ℕ} {memo : ChainMemo} (hkept : Kept v first memo) :
    Kept v' first memo := by
  refine ⟨h.dated hkept.dated, fun hcurrent chain hchain => ?_⟩
  have hbefore : v.chainMemoIsCurrent memo = true := h.current_before hkept.dated.past hcurrent
  exact h.facts _ _ (hkept.facts hbefore chain hchain)

theorem sound (h : Stamped v v') (hsound : MemoSound v) : MemoSound v' := by
  refine ⟨h.stores hsound.stores, fun first memo hlookup => ?_⟩
  rw [h.memo] at hlookup
  exact h.kept (hsound.kept first memo hlookup)

end Stamped

section Disk

variable {f f' : Facade} {lba : ℕ}

theorem stored_eq {m : ℕ → Option Sector} (h : f.store.Represents m) (l : ℕ) :
    f.stored l = m l := by
  unfold Facade.stored
  rcases SectorStore.get_spec h l none with hok | ⟨-, e, hnone, -⟩
  · rw [hok]
  · cases hnone

/-- FAT copy 0 is not touched by a change of a sector elsewhere. -/
theorem fatCopy_congr (hgeo : f'.geo = f.geo) {within : ℕ}
    (hother : ∀ l, l ≠ lba → f'.stored l = f.stored l)
    (hlba : within < f.geo.fatsz → f.geo.partStart+(reservedSectors+within) ≠ lba) :
    f'.fatCopy within = f.fatCopy within := by
  unfold Facade.fatCopy
  rw [hgeo]
  split_ifs with hin
  · exact hother _ (hlba hin)
  · rfl

variable (f : Facade) (lba : ℕ)

theorem writeSector_disk (data : Sector) (faults : ℕ → SpillFaults) :
    (f.writeSector lba data faults).geo = f.geo ∧ (f.writeSector lba data faults).fat = f.fat ∧
      (f.writeSector lba data faults).store = f.store.insert lba data faults := by
  obtain ⟨dirty, clusters, index, total, heq⟩ := f.writeSector_eq lba data faults
  rw [heq]
  exact ⟨rfl, rfl, rfl⟩

theorem acknowledge_disk : (f.acknowledge lba).geo = f.geo ∧ (f.acknowledge lba).fat = f.fat ∧
    (f.acknowledge lba).store = f.store.acknowledge lba := by
  obtain ⟨index, total, heq⟩ := f.acknowledge_eq lba
  rw [heq]
  exact ⟨rfl, rfl, rfl⟩

end Disk

section Steps

variable (v : MemoVolume)

theorem writeSector_stamped (lba : ℕ) (data : Sector) (faults : ℕ → SpillFaults)
    (hlba : lba ≤ u32Max) (hstores : ∃ m, v.facade.store.Represents m) :
    Stamped v (v.writeSector lba data faults) := by
  obtain ⟨hgeo, hfat, hstore⟩ := writeSector_disk v.facade lba data faults
  obtain ⟨m, hm⟩ := hstores
  have hm' : (v.facade.writeSector lba data faults).store.Represents
      (Function.update m lba (some data)) := by
    rw [hstore]
    exact (SectorStore.insert_represents hm lba data faults).1
  have hother : ∀ l, l ≠ lba →
      (v.facade.writeSector lba data faults).stored l = v.facade.stored l := by
    intro l hl
    rw [stored_eq hm', stored_eq hm, Function.update_of_ne hl]
  refine ⟨hgeo, hfat, fun _ => ⟨_, hm'⟩, fun facts chain h => h.write hlba hgeo hstore, ?_, ?_⟩
  · unfold MemoVolume.writeSector MemoVolume.stamp
    dsimp only
    split_ifs <;> rfl
  · unfold MemoVolume.writeSector MemoVolume.stamp
    dsimp only
    split_ifs with hbelow hregion
    · refine .inl ⟨rfl, fun w => fatCopy_congr hgeo hother fun _ => ?_⟩
      omega
    · -- a sector of either copy stamps its place in copy 0
      refine .inr ⟨_, rfl, fun w hw => fatCopy_congr hgeo hother ?_⟩
      rintro hin rfl
      apply hw
      rw [Nat.add_sub_cancel_left, Nat.add_sub_cancel_left, Nat.mod_eq_of_lt hin]
    · refine .inl ⟨rfl, fun w => fatCopy_congr hgeo hother fun hin => ?_⟩
      rintro rfl
      apply hregion
      rw [Nat.add_sub_cancel_left]
      simp only [numFats]
      omega

theorem acknowledge_stamped {lba : ℕ} (hlba : v.OutsideFats lba)
    (hstores : ∃ m, v.facade.store.Represents m) : Stamped v (v.acknowledge lba) := by
  obtain ⟨hgeo, hfat, hstore⟩ := acknowledge_disk v.facade lba
  obtain ⟨m, hm⟩ := hstores
  have hm' : (v.facade.acknowledge lba).store.Represents (Function.update m lba none) := by
    rw [hstore]
    exact SectorStore.acknowledge_represents hm lba
  have hother : ∀ l, l ≠ lba → (v.facade.acknowledge lba).stored l = v.facade.stored l := by
    intro l hl
    rw [stored_eq hm', stored_eq hm, Function.update_of_ne hl]
  have hhistory : v.facade.store.SameHistory (v.facade.acknowledge lba).store := by
    rw [hstore]
    exact v.facade.store.acknowledge_history lba
  refine ⟨hgeo, hfat, fun _ => ⟨_, hm'⟩, fun facts chain h => h.congr hgeo hhistory, rfl,
    .inl ⟨rfl, fun w => fatCopy_congr hgeo hother fun hin => ?_⟩⟩
  unfold MemoVolume.OutsideFats at hlba
  simp only [numFats] at hlba
  omega

theorem rebind_stamped (f : Facade) : Stamped v (v.rebind f) where
  geo := rfl
  base := rfl
  stores h := h
  facts _ _ h := h.congr rfl (.refl _)
  memo := rfl
  copy := .inl ⟨rfl, fun _ => rfl⟩

/-- The memo tells the truth after a step if it did before. -/
theorem MemoSound.step {v : MemoVolume} (h : MemoSound v) {e : MemoEvent} (hasserted : v.Asserted e) :
    MemoSound (v.step e) := by
  cases e with
  | writeSector lba data faults =>
    have hlba : lba.toNat ≤ u32Max := Nat.le_of_lt_succ lba.toNat_lt
    exact (writeSector_stamped v lba.toNat data faults hlba h.stores).sound h
  | chainOf host faults first => exact h.chainOf_sound host faults first
  | chainAndFacts host faults first => exact h.chainAndFacts_sound host faults first
  | acknowledge lba => exact (acknowledge_stamped v hasserted h.stores).sound h
  | rebind f => exact (rebind_stamped v f).sound h

theorem MemoSound.exec (events : List MemoEvent) {v : MemoVolume} (h : MemoSound v)
    (hasserted : Runs.Along MemoVolume.step MemoVolume.Asserted events v) :
    MemoSound (Runs.exec MemoVolume.step events v) := by
  induction events generalizing v with
  | nil => exact h
  | cons e rest ih => exact ih (h.step hasserted.1) hasserted.2

theorem memoSound_new {f : Facade} (h : ∃ m, f.store.Represents m) : MemoSound (.new f) :=
  ⟨h, fun first memo hlookup => by cases hlookup⟩

end Steps

def MemoVolume.Outdated (v : MemoVolume) (first : ℕ) : Prop :=
  ∃ memo, v.chainMemo.lookup first = some memo ∧ v.chainMemoIsCurrent memo = false

section Queries

variable {v : MemoVolume} (host : HostFiles) (faults : ℕ → Option String) (first : ℕ)

theorem freshWalk_stored (hclean : (v.facade.freshWalk host faults first).2.degraded = false) :
    (v.facade.freshWalk host faults first).1 =
      Facade.chainOf v.facade.stored v.facade host first :=
  (Facade.freshWalk_eq rfl rfl faults hclean fun _ _ => rfl).symm

theorem chainOf_facade : (v.chainOf host faults first).2.facade = v.facade := by
  rcases MemoSound.chainOf_cases v host faults first with ⟨memo, -, heq⟩ | ⟨-, -, heq⟩ |
    ⟨-, -, heq⟩
  · rw [heq]
  · rw [heq]
  · rw [heq]
    rfl

variable (h : MemoSound v)
include h

theorem MemoSound.chainOf_fresh :
    (v.chainOf host faults first).1 = (v.facade.freshWalk host faults first).1 ∨
      (v.chainOf host faults first).1 = Facade.chainOf v.facade.stored v.facade host first := by
  rcases chainOf_cases v host faults first with ⟨memo, hheld, heq⟩ | ⟨-, -, heq⟩ | ⟨-, -, heq⟩
  · rw [heq]
    exact .inr (h.held_result hheld host)
  · rw [heq]
    exact .inl rfl
  · rw [heq]
    exact .inl rfl

/-- The entry that the facts are taken from is current unless the memo kept an outdated one. -/
theorem MemoSound.current_of_clean
    (hclean : (v.facade.freshWalk host faults first).2.degraded = false ∨ ¬ v.Outdated first)
    (memo : ChainMemo)
    (hlookup : (v.chainOf host faults first).2.chainMemo.lookup first = some memo) :
    (v.chainOf host faults first).2.chainMemoIsCurrent memo = true := by
  rcases chainOf_cases v host faults first with ⟨memo', hheld, heq⟩ | ⟨hheld, hbad, heq⟩ |
    ⟨-, -, heq⟩
  · rw [heq] at hlookup ⊢
    obtain ⟨hlookup', hcurrent, -⟩ := h.held_kept hheld
    rw [hlookup] at hlookup'
    cases hlookup'
    exact hcurrent
  · rw [heq] at hlookup ⊢
    have hnot : ¬ v.Outdated first := hclean.resolve_left (by rw [hbad]; exact Bool.noConfusion)
    by_contra hout
    exact hnot ⟨memo, hlookup, by simpa using hout⟩
  · rw [heq] at hlookup ⊢
    unfold MemoVolume.keep at hlookup
    rw [AList.lookup_insert] at hlookup
    cases hlookup
    -- an entry of this epoch
    simp [MemoVolume.chainMemoIsCurrent, MemoVolume.keep, MemoVolume.walked, Stamps.isCurrent]

theorem MemoSound.facts_fresh
    (hclean : (v.facade.freshWalk host faults first).2.degraded = false ∨ ¬ v.Outdated first) :
    (v.chainAndFacts host faults first).1 =
      (v.chainOf host faults first).1.map v.facade.factsOf := by
  rw [MemoSound.chainAndFacts_eq]
  cases hchain : (v.chainOf host faults first).1 with
  | none => rfl
  | some chain =>
    have hfacts : ((v.chainOf host faults first).2.factsFor first chain).1 =
        (v.chainOf host faults first).2.facade.factsOf chain := by
      refine (h.chainOf_sound host faults first).factsFor_eq fun memo hlookup => ?_
      have hcurrent := h.current_of_clean host faults first hclean memo hlookup
      refine ⟨hcurrent, ?_⟩
      rw [MemoSound.result_of_current v host faults first memo hlookup hcurrent, hchain]
    rw [chainOf_facade] at hfacts
    exact congrArg some hfacts

end Queries

/-- From a mount, under any writes, failed reads and commits that take no FAT sector off the store:
a chain is what a walk gives now, or what it would give if all sectors could be read; the facts are
those of that chain as long as the walk is clean or no outdated entry is left; and what a
degraded walk gave is not kept. -/
theorem chain_memo_sound {m : Mount} {fuel : ℕ} {f : Facade} (hmount : m.mount fuel = some (.ok f))
    (events : List MemoEvent)
    (hasserted : Runs.Along MemoVolume.step MemoVolume.Asserted events (.new f))
    (host : HostFiles) (faults : ℕ → Option String) (first : ℕ) :
    let v := Runs.exec MemoVolume.step events (.new f)
    let fresh := v.facade.freshWalk host faults first
    let written := Facade.chainOf v.facade.stored v.facade host first
    ((v.chainOf host faults first).1 = fresh.1 ∨ (v.chainOf host faults first).1 = written) ∧
      (fresh.2.degraded = false → fresh.1 = written) ∧
      (fresh.2.degraded = false ∨ ¬ v.Outdated first →
        (v.chainAndFacts host faults first).1 =
          (v.chainOf host faults first).1.map v.facade.factsOf) ∧
      (fresh.2.degraded = true → (v.chainOf host faults first).2 = v) := by
  intro v fresh written
  obtain ⟨root, geo, -, rfl⟩ := m.mount_ok hmount
  have h : MemoSound v :=
    (memoSound_new ⟨_, SectorStore.withCapacity_represents _⟩).exec events hasserted
  refine ⟨h.chainOf_fresh host faults first, freshWalk_stored host faults first,
    h.facts_fresh host faults first, fun hbad => ?_⟩
  rcases MemoSound.chainOf_cases v host faults first with ⟨memo, -, heq⟩ | ⟨-, -, heq⟩ |
    ⟨-, hclean, -⟩
  · rw [heq]
  · rw [heq]
  · exact absurd (hbad.symm.trans hclean) Bool.noConfusion

def MemoEvent.endChain : MemoEvent :=
  .writeSector 2080 (fun i => if i.val < 16 then 0xFF else 0) fun _ => ⟨none, none, none⟩

def MemoEvent.linkPastFat : MemoEvent :=
  .writeSector 2080 (fun i => if i.val < 12 then 0xFF else ([0x80, 0x04, 0x01].getD (i.val-12) 0))
    fun _ => ⟨none, none, none⟩

def MemoEvent.query : MemoEvent := .chainAndFacts (fun _ => none) (fun _ => none) 3

theorem endChain_facts : emptyFolder.mount 8 = some (.ok emptyFacade) ∧
    Runs.Along MemoVolume.step MemoVolume.Asserted [.endChain, .query] (.new emptyFacade) ∧
    (let v := Runs.exec MemoVolume.step [.endChain, .query] (.new emptyFacade)
    (v.chainAndFacts (fun _ => none) (fun _ => none) 3).1 =
      (v.chainOf (fun _ => none) (fun _ => none) 3).1.map v.facade.factsOf) := by
  refine ⟨emptyFolder_mount, ⟨trivial, trivial, trivial⟩, ?_⟩
  have h := chain_memo_sound emptyFolder_mount [.endChain, .query] ⟨trivial, trivial, trivial⟩
    (fun _ => none) (fun _ => none) 3
  exact h.2.2.1 (.inl (by decide +kernel))

/-- No read fails, yet the facts of the new chain are those of the old one: the chain leaves the
data region, and is said not to. -/
theorem stale_facts_served : emptyFolder.mount 8 = some (.ok emptyFacade) ∧
    (let v := Runs.exec MemoVolume.step [.endChain, .query, .linkPastFat] (.new emptyFacade)
    let served := (v.chainAndFacts (fun _ => none) (fun _ => none) 3).1
    let recomputed := (v.chainOf (fun _ => none) (fun _ => none) 3).1.map v.facade.factsOf
    served.map (fun facts => (facts.chain, facts.inRange)) = some ([3, 66688], true) ∧
      recomputed.map (fun facts => (facts.chain, facts.inRange)) = some ([3, 66688], false) ∧
      served ≠ recomputed) := by
  have hserved : ((Runs.exec MemoVolume.step [.endChain, .query, .linkPastFat]
      (.new emptyFacade)).chainAndFacts (fun _ => none) (fun _ => none) 3).1.map
        (fun facts => (facts.chain, facts.inRange)) = some ([3, 66688], true) := by
    decide +kernel
  have hrecomputed : (((Runs.exec MemoVolume.step [.endChain, .query, .linkPastFat]
      (.new emptyFacade)).chainOf (fun _ => none) (fun _ => none) 3).1.map
        (Runs.exec MemoVolume.step [.endChain, .query, .linkPastFat]
          (.new emptyFacade)).facade.factsOf).map
        (fun facts => (facts.chain, facts.inRange)) = some ([3, 66688], false) := by
    decide +kernel
  refine ⟨emptyFolder_mount, hserved, hrecomputed, fun heq => ?_⟩
  rw [heq, hrecomputed] at hserved
  cases hserved

end IzarraVM.Katea
