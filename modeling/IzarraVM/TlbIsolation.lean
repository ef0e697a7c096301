import IzarraVM.Tlb

/-! Which entries a lookup returns: those inserted under the live slot since its last flush. -/
namespace IzarraVM.Paging

inductive TlbEvent
  | insert (page phys : UInt32) (writable user dirty : Bool)
  | lookup (page : UInt32)
  | invalidate (page : UInt32)
  | select (s : Fin 2)
  | allocate (s : Fin 2)
  | flushLive
  | retireAll
  | retireDormant
  deriving DecidableEq

/-- The generations that an event mints. -/
def TlbEvent.mints : TlbEvent → ℕ
  | .allocate _ | .flushLive | .retireDormant => 1
  | .retireAll => 2
  | _ => 0

structure Watched where
  tlb : Tlb
  origin : Fin 1024 → Option (Fin 2 × ℕ)
  flushes : Fin 2 → ℕ

namespace Watched

def start : Watched := ⟨.default, fun _ => none, fun _ => 0⟩

def flushed (w : Watched) (tlb : Tlb) (s : Fin 2) : Watched :=
  { w with tlb, flushes := Function.update w.flushes s (w.flushes s + 1) }

def step (w : Watched) : TlbEvent → Watched
  | .insert page phys writable user dirty =>
    { w with
      tlb := w.tlb.insert page phys writable user dirty
      origin := Function.update w.origin (Tlb.slot page) (some (w.tlb.live, w.flushes w.tlb.live)) }
  | .lookup _ => w
  | .invalidate page => { w with tlb := w.tlb.invalidate page }
  | .select s => { w with tlb := w.tlb.selectGeneration s }
  | .allocate s => w.flushed (w.tlb.allocateGeneration s) s
  | .flushLive => w.flushed w.tlb.flushLiveSlot w.tlb.live
  | .retireAll => (w.flushed w.tlb 0).flushed w.tlb.retireAllSlots 1
  | .retireDormant => w.flushed w.tlb.retireDormantSlot (1 - w.tlb.live)

structure Isolated (w : Watched) : Prop where
  nonzero : ∀ s, w.tlb.generations s ≠ 0
  distinct : w.tlb.generations 0 ≠ w.tlb.generations 1
  hits : ∀ page e, w.tlb.lookup page = some e →
    w.origin (Tlb.slot page) = some (w.tlb.live, w.flushes w.tlb.live)

end Watched

namespace Tlb

variable {t : Tlb} {s : Fin 2}

def minted (t : Tlb) : UInt32 := if t.nextGeneration = 0 then 1 else t.nextGeneration

/-- A mint keeps the entries or clears them. -/
theorem mint_eq (t : Tlb) : t.mintGeneration = (t.minted,
    { t with
      entries := if t.nextGeneration = 0 then fun _ => .empty else t.entries
      nextGeneration := t.minted + 1 }) := by
  unfold mintGeneration restart minted
  by_cases h : t.nextGeneration = 0
  · simp only [if_pos h]
  · simp only [if_neg h]

theorem mint_fst (t : Tlb) : t.mintGeneration.1 = t.minted := by rw [mint_eq]

theorem mint_next (t : Tlb) : t.mintGeneration.2.nextGeneration = t.minted + 1 := by rw [mint_eq]

theorem mint_generations (t : Tlb) : t.mintGeneration.2.generations = t.generations := by
  rw [mint_eq]

theorem mint_live (t : Tlb) : t.mintGeneration.2.live = t.live := by rw [mint_eq]

theorem mint_entries (t : Tlb) : t.mintGeneration.2.entries =
    if t.nextGeneration = 0 then fun _ => .empty else t.entries := by rw [mint_eq]

end Tlb

namespace Watched

variable {w : Watched}

def Mirrored (w : Watched) : Prop := w.tlb.generation = w.tlb.generations w.tlb.live

theorem Mirrored.step (h : w.Mirrored) (event : TlbEvent) : (w.step event).Mirrored := by
  cases event with
  | invalidate page =>
    show Mirrored { w with tlb := w.tlb.invalidate page }
    unfold Tlb.invalidate
    dsimp only
    split <;> exact h
  | allocate s => exact (Function.update_self s _ w.tlb.mintGeneration.2.generations).symm
  | flushLive => exact (Function.update_self _ _ w.tlb.mintGeneration.2.generations).symm
  | retireDormant =>
    have hother : ∀ l : Fin 2, l ≠ 1 - l := by decide
    have hsame : w.tlb.mintGeneration.2.generation = w.tlb.generation := by rw [Tlb.mint_eq]
    show w.tlb.mintGeneration.2.generation = Function.update w.tlb.mintGeneration.2.generations
      (1 - w.tlb.mintGeneration.2.live) _ w.tlb.mintGeneration.2.live
    rw [Function.update_of_ne (hother _), Tlb.mint_live, Tlb.mint_generations, hsame]
    exact h
  | retireAll => rfl
  | select s => rfl
  | _ => exact h

theorem Mirrored.run (h : w.Mirrored) (events : List TlbEvent) :
    (Runs.exec Watched.step events w).Mirrored :=
  List.foldlRecOn (motive := Mirrored) events Watched.step h fun _ hv event _ => hv.step event

/-- The counter is at `n` and has not wrapped: every generation in use was minted before. -/
structure Kept (n : ℕ) (w : Watched) : Prop where
  next : w.tlb.nextGeneration = UInt32.ofNat n
  minted : ∀ s, w.tlb.generations s ≠ 0 ∧ (w.tlb.generations s).toNat < n
  carried : ∀ i, (w.tlb.entries i).generation.toNat < n
  distinct : w.tlb.generations 0 ≠ w.tlb.generations 1
  owned : ∀ i s, (w.tlb.entries i).generation = w.tlb.generations s →
    w.origin i = some (s, w.flushes s)

theorem start_kept : start.Kept 3 := by
  refine ⟨rfl, by decide, fun _ => (show 0 < 3 by decide), by decide, ?_⟩
  intro i s hi
  change (0 : UInt32) = ![1, 2] s at hi
  match s with
  | 0 => exact absurd hi (by decide)
  | 1 => exact absurd hi (by decide)

variable {n : ℕ}

theorem Kept.isolated (h : w.Kept n) (hmirror : w.Mirrored) : w.Isolated := by
  refine ⟨fun s => (h.minted s).1, h.distinct, ?_⟩
  intro page e he
  unfold Tlb.lookup at he
  dsimp only at he
  split at he
  · rename_i hhit
    apply h.owned
    rw [hhit.1, hmirror]
  · cases he

theorem Kept.insert (h : w.Kept n) (hmirror : w.Mirrored) (page phys : UInt32)
    (writable user dirty : Bool) : (w.step (.insert page phys writable user dirty)).Kept n := by
  have hentry (i : Fin 1024) : (w.step (.insert page phys writable user dirty)).tlb.entries i =
      if i = Tlb.slot page then ⟨page, phys, w.tlb.generation, writable, user, dirty⟩
      else w.tlb.entries i := Function.update_apply _ _ _ _
  refine ⟨h.next, h.minted, fun i => ?_, h.distinct, fun i s hi => ?_⟩
  · rw [hentry]
    split
    · exact hmirror ▸ (h.minted w.tlb.live).2
    · exact h.carried i
  show Function.update w.origin _ _ i = _
  rw [hentry] at hi
  by_cases hslot : i = Tlb.slot page
  · rw [if_pos hslot] at hi
    rw [hslot, Function.update_self]
    -- the generation tells the slot, since the two are distinct
    have hlive : w.tlb.live = s := by
      change w.tlb.generation = w.tlb.generations s at hi
      rw [hmirror] at hi
      have hne := h.distinct
      generalize w.tlb.live = l at hi
      match l, s with
      | 0, 0 => rfl
      | 1, 1 => rfl
      | 0, 1 => exact absurd hi hne
      | 1, 0 => exact absurd hi.symm hne
    rw [hlive]
    rfl
  · rw [if_neg hslot] at hi
    rw [Function.update_of_ne hslot]
    exact h.owned i s hi

theorem Kept.invalidate (h : w.Kept n) (page : UInt32) : (w.step (.invalidate page)).Kept n := by
  show Kept n { w with tlb := w.tlb.invalidate page }
  unfold Tlb.invalidate
  dsimp only
  split
  · have hentry (i : Fin 1024) : (w.tlb.setEntry (Tlb.slot page) .empty).entries i =
        if i = Tlb.slot page then .empty else w.tlb.entries i := Function.update_apply _ _ _ _
    refine ⟨h.next, h.minted, fun i => ?_, h.distinct, fun i s hi => ?_⟩
    · rw [hentry]
      split
      · exact Nat.zero_lt_of_lt (h.minted 0).2
      · exact h.carried i
    · rw [hentry] at hi
      split at hi
      · exact absurd hi.symm (h.minted s).1
      · exact h.owned i s hi
  · exact h

/-- The next mint, while the counter has not wrapped. -/
theorem Kept.mint (h : w.Kept n) (hn : n < 2 ^ 32) : w.tlb.mintGeneration =
    (UInt32.ofNat n, { w.tlb with nextGeneration := UInt32.ofNat (n + 1) }) := by
  have hpos : 0 < n := Nat.zero_lt_of_lt (h.minted 0).2
  have hne : w.tlb.nextGeneration ≠ 0 := by
    rw [h.next, ne_eq, ← UInt32.toNat_inj, UInt32.toNat_ofNat_of_lt' hn, UInt32.toNat_zero]
    omega
  rw [Tlb.mint_eq, Tlb.minted, if_neg hne, if_neg hne, h.next, UInt32.ofNat_add, UInt32.ofNat_one]

/-- Slot `s` takes the generation `n`, which nothing has yet. -/
theorem Kept.flushed (h : w.Kept n) (hn : n < 2 ^ 32) (s : Fin 2) {t : Tlb}
    (hnext : t.nextGeneration = UInt32.ofNat (n + 1)) (hentries : t.entries = w.tlb.entries)
    (hgens : t.generations = Function.update w.tlb.generations s (UInt32.ofNat n)) :
    (w.flushed t s).Kept (n + 1) := by
  have hvalue : (UInt32.ofNat n).toNat = n := UInt32.toNat_ofNat_of_lt' hn
  have hpos : 0 < n := Nat.zero_lt_of_lt (h.minted 0).2
  have hgen (s' : Fin 2) : (w.flushed t s).tlb.generations s' =
      if s' = s then UInt32.ofNat n else w.tlb.generations s' := by
    rw [← Function.update_apply, ← hgens]
    rfl
  have hother (s' : Fin 2) : w.tlb.generations s' ≠ UInt32.ofNat n := by
    intro heq
    have hlt := (h.minted s').2
    rw [heq, hvalue] at hlt
    exact Nat.lt_irrefl n hlt
  refine ⟨hnext, fun s' => ?_, fun i => ?_, ?_, fun i s' hi => ?_⟩
  · rw [hgen]
    split
    · rw [ne_eq, ← UInt32.toNat_inj, hvalue, UInt32.toNat_zero]
      omega
    · exact ⟨(h.minted s').1, Nat.lt_succ_of_lt (h.minted s').2⟩
  · show (t.entries i).generation.toNat < n + 1
    rw [hentries]
    exact Nat.lt_succ_of_lt (h.carried i)
  · rw [hgen, hgen]
    match s with
    | 0 => exact (hother 1).symm
    | 1 => exact hother 0
  · change (t.entries i).generation = _ at hi
    rw [hentries, hgen] at hi
    show w.origin i = some (s', Function.update w.flushes s (w.flushes s + 1) s')
    by_cases hs : s' = s
    · -- no entry has the new generation
      rw [if_pos hs] at hi
      have hlt := h.carried i
      rw [hi, hvalue] at hlt
      exact absurd hlt (Nat.lt_irrefl n)
    · rw [if_neg hs] at hi
      rw [Function.update_of_ne hs]
      exact h.owned i s' hi

theorem Kept.retireAll (h : w.Kept n) (hn : n + 1 < 2 ^ 32) : (w.step .retireAll).Kept (n + 2) := by
  have hfirst := h.flushed (Nat.lt_of_succ_lt hn) 0
    (t := ({ w.tlb with nextGeneration := UInt32.ofNat (n + 1) } : Tlb).setGeneration 0
      (UInt32.ofNat n)) rfl rfl rfl
  have hmint := hfirst.mint hn
  dsimp only [Watched.flushed] at hmint
  refine hfirst.flushed hn 1 (t := w.tlb.retireAllSlots) ?_ ?_ ?_
  all_goals
    unfold Tlb.retireAllSlots
    rw [h.mint (Nat.lt_of_succ_lt hn)]
    dsimp only
    rw [hmint]
    rfl

theorem Kept.step (h : w.Kept n) (hmirror : w.Mirrored) (e : TlbEvent) (hn : n + e.mints ≤ 2 ^ 32) :
    (w.step e).Kept (n + e.mints) := by
  cases e with
  | insert page phys writable user dirty => exact h.insert hmirror page phys writable user dirty
  | lookup page => exact h
  | invalidate page => exact h.invalidate page
  | select s => exact { h with }
  | retireAll => exact h.retireAll hn
  | allocate s =>
    refine h.flushed hn s (t := w.tlb.allocateGeneration s) ?_ ?_ ?_ <;>
      rw [Tlb.allocateGeneration, h.mint hn] <;> rfl
  | flushLive =>
    refine h.flushed hn w.tlb.live (t := w.tlb.flushLiveSlot) ?_ ?_ ?_ <;>
      rw [Tlb.flushLiveSlot, h.mint hn] <;> rfl
  | retireDormant =>
    refine h.flushed hn (1 - w.tlb.live) (t := w.tlb.retireDormantSlot) ?_ ?_ ?_ <;>
      rw [Tlb.retireDormantSlot, h.mint hn] <;> rfl

theorem Kept.throughout (events : List TlbEvent) {w : Watched} (h : w.Kept n) (hmirror : w.Mirrored)
    (hn : n + (events.map TlbEvent.mints).sum ≤ 2 ^ 32) :
    Runs.Throughout Watched.step Isolated events w := by
  induction events generalizing w n with
  | nil => exact h.isolated hmirror
  | cons e rest ih =>
    rw [List.map_cons, List.sum_cons, ← Nat.add_assoc] at hn
    refine ⟨h.isolated hmirror, ih (h.step hmirror e ?_) (hmirror.step e) hn⟩
    exact Nat.le_trans (Nat.le_add_right _ _) hn

/-- In every run that does not mint more generations than the counter has left, the slots stay
isolated throughout. -/
theorem isolated_throughout (events : List TlbEvent)
    (h : 3 + (events.map TlbEvent.mints).sum ≤ 2 ^ 32) :
    Runs.Throughout step Isolated events start := start_kept.throughout events rfl h

/-- Another directory takes the second slot, and the first is selected again and flushed. -/
theorem two_directories_isolated :
    3 + ([.allocate 1, .select 0, .flushLive].map TlbEvent.mints).sum ≤ 2 ^ 32 ∧
      Runs.Throughout step Isolated [.allocate 1, .select 0, .flushLive] start :=
  ⟨by decide, isolated_throughout _ (by decide)⟩

/-- A flush of the first slot takes the next generation and leaves the second slot's. -/
theorem flushLive_first (hlive : w.tlb.live = 0) :
    (w.step .flushLive).tlb.live = 0 ∧
      (w.step .flushLive).tlb.generations 0 = w.tlb.minted ∧
      (w.step .flushLive).tlb.generations 1 = w.tlb.generations 1 ∧
      (w.step .flushLive).tlb.nextGeneration = w.tlb.minted + 1 := by
  have hmint := w.tlb.mint_live.trans hlive
  refine ⟨hmint, ?_, ?_, w.tlb.mint_next⟩
  · show Function.update w.tlb.mintGeneration.2.generations w.tlb.mintGeneration.2.live
      w.tlb.mintGeneration.1 0 = _
    rw [hmint, Function.update_self, Tlb.mint_fst]
  · show Function.update w.tlb.mintGeneration.2.generations w.tlb.mintGeneration.2.live
      w.tlb.mintGeneration.1 1 = _
    rw [hmint, Function.update_of_ne (by decide), w.tlb.mint_generations]

/-- Flushes of the first slot count up to the wrap while the second slot stays dormant. -/
theorem flushes_count (n : ℕ) (hn : n + 3 ≤ 2 ^ 32) :
    (Runs.exec step (List.replicate n .flushLive) start).tlb.live = 0 ∧
      (Runs.exec step (List.replicate n .flushLive) start).tlb.generations 1 = 2 ∧
      (Runs.exec step (List.replicate n .flushLive) start).tlb.nextGeneration =
        UInt32.ofNat (n + 3) := by
  induction n with
  | zero => exact ⟨rfl, rfl, rfl⟩
  | succ n ih =>
    obtain ⟨hlive, hgen, hnext⟩ := ih (by omega)
    rw [List.replicate_succ', Runs.exec_append, Runs.exec_cons, Runs.exec_nil]
    generalize Runs.exec step (List.replicate n .flushLive) start = w at hlive hgen hnext
    obtain ⟨hlive', -, hgen', hnext'⟩ := flushLive_first hlive
    have hlt : n + 3 < 2 ^ 32 := by omega
    have hne : ¬ w.tlb.nextGeneration = 0 := by
      rw [hnext, ← UInt32.toNat_inj, UInt32.toNat_ofNat_of_lt' hlt, UInt32.toNat_zero]
      omega
    refine ⟨hlive', hgen'.trans hgen, ?_⟩
    rw [hnext', Tlb.minted, if_neg hne, hnext, ← UInt32.ofNat_one, ← UInt32.ofNat_add,
      Nat.add_right_comm]

/-- After the wrap the second flush takes the generation that the dormant slot still has. -/
theorem dormant_generation_repeated :
    ¬ (Runs.exec step (List.replicate (2 ^ 32 - 3 + 2) .flushLive) start).Isolated := by
  intro h
  obtain ⟨hlive, hgen, hnext⟩ := flushes_count (2 ^ 32 - 3) (by decide)
  have hdistinct := h.distinct
  rw [← List.replicate_append_replicate, Runs.exec_append] at hdistinct
  generalize Runs.exec step (List.replicate (2 ^ 32 - 3) .flushLive) start = w
    at hlive hgen hnext hdistinct
  change (((w.step .flushLive).step .flushLive).tlb.generations 0) ≠
    ((w.step .flushLive).step .flushLive).tlb.generations 1 at hdistinct
  obtain ⟨hlive₁, -, hgen₁, hnext₁⟩ := flushLive_first hlive
  obtain ⟨-, hfirst, hsecond, -⟩ := flushLive_first hlive₁
  -- the counter is at 0 here, so the first of the two takes 1
  have hone : w.tlb.minted = 1 := if_pos hnext
  have htwo : (w.step .flushLive).tlb.minted = 2 := by
    rw [Tlb.minted, hnext₁, hone]
    rfl
  rw [hfirst, htwo, hsecond, hgen₁, hgen] at hdistinct
  exact hdistinct rfl

/-- The cache has the entry `e`, with the generation of slot `s`. -/
structure Holds (s : Fin 2) (e : TlbEntry) (w : Watched) : Prop where
  generation : w.tlb.generations s = e.generation
  entry : w.tlb.entries (Tlb.slot e.tag) = e

/-- The event puts nothing at the index of `e`, does not retire slot `s`, and mints no generation
where that clears the table. -/
def SparesEntry (s : Fin 2) (e : TlbEntry) (w : Watched) : TlbEvent → Prop
  | .insert page .. => Tlb.slot page ≠ Tlb.slot e.tag
  | .invalidate page => page ≠ e.tag
  | .allocate s' => s' ≠ s ∧ w.tlb.nextGeneration ≠ 0
  | .flushLive => w.tlb.live ≠ s ∧ w.tlb.nextGeneration ≠ 0
  | .retireDormant => 1 - w.tlb.live ≠ s ∧ w.tlb.nextGeneration ≠ 0
  | .retireAll => False
  | _ => True

variable {s : Fin 2} {e : TlbEntry}

theorem Holds.step (h : w.Holds s e) (event : TlbEvent) (hspares : w.SparesEntry s e event) :
    (w.step event).Holds s e := by
  -- a mint gives its generation to another slot and leaves the table
  have hgens (s' : Fin 2) (g : UInt32) (hs : s' ≠ s) :
      Function.update w.tlb.mintGeneration.2.generations s' g s = e.generation := by
    rw [Function.update_of_ne hs.symm, Tlb.mint_generations]
    exact h.generation
  have hentry (hnext : w.tlb.nextGeneration ≠ 0) :
      w.tlb.mintGeneration.2.entries (Tlb.slot e.tag) = e := by
    rw [Tlb.mint_entries, if_neg hnext]
    exact h.entry
  cases event with
  | insert page phys writable user dirty =>
    exact ⟨h.generation, (Function.update_of_ne (Ne.symm hspares) _ _).trans h.entry⟩
  | invalidate page =>
    show Holds s e { w with tlb := w.tlb.invalidate page }
    unfold Tlb.invalidate
    dsimp only
    split
    · next hhit =>
      refine ⟨h.generation, (Function.update_of_ne ?_ _ _).trans h.entry⟩
      intro hslot
      rw [← hslot, h.entry] at hhit
      exact hspares hhit.2.symm
    · exact h
  | allocate s' => exact ⟨hgens s' _ hspares.1, hentry hspares.2⟩
  | flushLive =>
    refine ⟨hgens w.tlb.mintGeneration.2.live w.tlb.mintGeneration.1 ?_, hentry hspares.2⟩
    rw [Tlb.mint_live]
    exact hspares.1
  | retireDormant =>
    refine ⟨hgens (1 - w.tlb.mintGeneration.2.live) w.tlb.mintGeneration.1 ?_, hentry hspares.2⟩
    rw [Tlb.mint_live]
    exact hspares.1
  | retireAll => exact hspares.elim
  | _ => exact ⟨h.generation, h.entry⟩

theorem Holds.run (events : List TlbEvent) : ∀ {w : Watched}, w.Holds s e →
    Runs.Along Watched.step (SparesEntry s e) events w →
    (Runs.exec Watched.step events w).Holds s e := by
  induction events with
  | nil => exact fun h _ => h
  | cons event rest ih => exact fun h hspares => ih (h.step event hspares.1) hspares.2

/-- After any run, what is inserted is found whenever its slot is live again, however the slots are
switched and the other one is flushed or given away, as long as every event spares it. -/
theorem reselected_entry_found (before after : List TlbEvent) (page phys : UInt32)
    (writable user dirty : Bool) :
    let w := Runs.exec step before start
    let e : TlbEntry := ⟨page, phys, w.tlb.generation, writable, user, dirty⟩
    let inserted := w.step (.insert page phys writable user dirty)
    let last := Runs.exec step after inserted
    Runs.Along step (SparesEntry w.tlb.live e) after inserted → last.tlb.live = w.tlb.live →
      last.tlb.lookup page = some e := by
  intro w e inserted last hspares hlive
  have hmirror : w.Mirrored := Mirrored.run (w := start) rfl before
  have hinserted : inserted.Holds w.tlb.live e := ⟨hmirror.symm, Function.update_self _ _ _⟩
  have hlast : last.Holds w.tlb.live e := hinserted.run after hspares
  have hgeneration : last.tlb.generation = e.generation := by
    have hmirrored : last.Mirrored := Mirrored.run (w := inserted) hmirror after
    rw [hmirrored, hlive]
    exact hlast.generation
  have hentry : last.tlb.entries (Tlb.slot page) = e := hlast.entry
  unfold Tlb.lookup
  dsimp only
  rw [hentry, hgeneration]
  exact if_pos ⟨rfl, rfl⟩

/-- The other slot is given away, filled and flushed before the first one is selected again. -/
theorem two_directories_found :
    (Runs.exec step [.allocate 1, .insert 6 9 true true true, .flushLive, .select 0]
      (start.step (.insert 5 7 true false false))).tlb.lookup 5 =
      some ⟨5, 7, 1, true, false, false⟩ :=
  reselected_entry_found [] [.allocate 1, .insert 6 9 true true true, .flushLive, .select 0] 5 7
    true false false ⟨⟨by decide, by decide⟩, (show Tlb.slot 6 ≠ Tlb.slot 5 by decide),
      ⟨by decide, by decide⟩, trivial, trivial⟩ rfl

end Watched

end IzarraVM.Paging
