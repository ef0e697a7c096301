import IzarraVM.StepRuns
import IzarraVM.CommonInstances

/-! The shadow tags of the first-level cache (`shadow_cache.rs`): 128 sets of four ways. -/
namespace IzarraVM.Shadow

def plruVictim (bits : BitVec 8) : Fin 4 :=
  if bits &&& 0b001 = 0 then if bits &&& 0b010 = 0 then 0 else 1
  else if bits &&& 0b100 = 0 then 2 else 3

def plruTouch (bits : BitVec 8) : Fin 4 → BitVec 8
  | 0 => (bits &&& 0b100) ||| 0b011
  | 1 => (bits &&& 0b100) ||| 0b001
  | 2 => (bits &&& 0b010) ||| 0b100
  | 3 => bits &&& 0b010

theorem touch_half (bits : BitVec 8) (w : Fin 4) :
    plruTouch bits w &&& 0b001 = 0 ↔ w = 2 ∨ w = 3 := by
  revert bits w
  decide

theorem touch_lower (bits : BitVec 8) (w : Fin 4) :
    plruTouch bits w &&& 0b010 = 0 ↔ w = 1 ∨ w ≠ 0 ∧ bits &&& 0b010 = 0 := by
  revert bits w
  decide

theorem touch_upper (bits : BitVec 8) (w : Fin 4) :
    plruTouch bits w &&& 0b100 = 0 ↔ w = 3 ∨ w ≠ 2 ∧ bits &&& 0b100 = 0 := by
  revert bits w
  decide

def emptyTag : UInt32 := 0xFFFFFFFF

structure ShadowTags where
  tags : Fin 128 → Fin 4 → UInt32
  plru : Fin 128 → BitVec 8

inductive Event where
  | probe (phys : UInt32) (isWrite : Bool)
  | flush

def lineOf (phys : UInt32) : UInt32 := phys >>> 4

def setOf (phys : UInt32) : Fin 128 := Fin.ofNat 128 (lineOf phys).toNat

/-- No line number reaches the tag of an empty way. -/
theorem lineOf_ne_emptyTag (phys : UInt32) : lineOf phys ≠ emptyTag := by
  intro h
  have hlt : phys.toNat / 16 < 2 ^ 28 := by have := phys.toNat_lt; omega
  have hline : (lineOf phys).toNat = phys.toNat / 16 := by
    simp [lineOf, Nat.shiftRight_eq_div_pow]
  rw [h] at hline
  have hempty : emptyTag.toNat = 2 ^ 32 - 1 := rfl
  omega

namespace ShadowTags

def new : ShadowTags := ⟨fun _ _ => emptyTag, fun _ => 0⟩

variable (t : ShadowTags)

def wayOf (phys : UInt32) : Option (Fin 4) :=
  (List.finRange 4).find? fun way => t.tags (setOf phys) way = lineOf phys

def touch (set : Fin 128) (way : Fin 4) : ShadowTags :=
  { t with plru := Function.update t.plru set (plruTouch (t.plru set) way) }

def probe (phys : UInt32) (isWrite : Bool) : Bool × ShadowTags :=
  let set := setOf phys
  match t.wayOf phys with
  | some way => (true, t.touch set way)
  | none =>
    if isWrite then (false, t)
    else
      let victim := plruVictim (t.plru set)
      let ways := Function.update (t.tags set) victim (lineOf phys)
      (false, { t with tags := Function.update t.tags set ways }.touch set victim)

def step : Event → ShadowTags
  | .probe phys isWrite => (t.probe phys isWrite).2
  | .flush => new

/-- A valid line of a set goes while the set has an empty way. -/
def EvictsEarly (t : ShadowTags) : Event → Prop
  | .probe phys isWrite =>
    ∃ set way gap, t.tags set way ≠ emptyTag ∧ t.tags set gap = emptyTag ∧
      (t.probe phys isWrite).2.tags set way ≠ t.tags set way
  | .flush => False

def TagsUnique : Prop :=
  ∀ set way way', t.tags set way = t.tags set way' → t.tags set way ≠ emptyTag → way = way'

/-- The hit, if it is one, is not on the way beside the only empty one of its set. -/
def Spares (t : ShadowTags) : Event → Prop
  | .probe phys _ => ∀ way gap, t.wayOf phys = some way → t.tags (setOf phys) gap = emptyTag →
      way.val / 2 = gap.val / 2 → ∃ other, other ≠ gap ∧ t.tags (setOf phys) other = emptyTag
  | .flush => True

instance (t : ShadowTags) : (e : Event) → Decidable (t.Spares e)
  | .probe phys _ => inferInstanceAs (Decidable (∀ way gap, t.wayOf phys = some way →
      t.tags (setOf phys) gap = emptyTag → way.val / 2 = gap.val / 2 →
      ∃ other, other ≠ gap ∧ t.tags (setOf phys) other = emptyTag))
  | .flush => isTrue trivial

end ShadowTags

structure Poised (ways : Fin 4 → UInt32) (half low up : Prop) : Prop where
  cold : ways 0 = emptyTag → ways 2 = emptyTag ∧ half ∧ low ∧ up
  second : ways 0 ≠ emptyTag → ways 2 = emptyTag → ¬half ∧ up
  others : ways 2 = emptyTag → ways 1 = emptyTag ∧ ways 3 = emptyTag
  lower : ways 0 ≠ emptyTag → ways 1 = emptyTag → ¬low ∧ (ways 3 ≠ emptyTag → half)
  upper : ways 2 ≠ emptyTag → ways 3 = emptyTag → ¬up ∧ (ways 1 ≠ emptyTag → ¬half)

namespace Poised

variable {ways : Fin 4 → UInt32} {half low up : Prop} (h : Poised ways half low up)
include h

/-- A hit keeps it, unless it is on the way beside the only empty one. -/
theorem touch {way : Fin 4} (hway : ways way ≠ emptyTag)
    (hspare : ∀ gap, ways gap = emptyTag → way.val / 2 = gap.val / 2 →
      ∃ other, other ≠ gap ∧ ways other = emptyTag) :
    Poised ways (way = 2 ∨ way = 3) (way = 1 ∨ way ≠ 0 ∧ low) (way = 3 ∨ way ≠ 2 ∧ up) := by
  obtain ⟨hcold, hsecond, hothers, hlower, hupper⟩ := h
  have h1 : way = 0 → ways 1 = emptyTag → ways 2 ≠ emptyTag → ways 3 = emptyTag := by
    rintro rfl h1 h2
    obtain ⟨other, hne, hother⟩ := hspare 1 h1 rfl
    fin_cases other <;> simp_all
  have h3 : way = 2 → ways 3 = emptyTag → ways 1 = emptyTag := by
    rintro rfl h3
    obtain ⟨other, hne, hother⟩ := hspare 3 h3 rfl
    fin_cases other <;> simp_all
  clear hspare
  constructor <;> fin_cases way <;> grind

variable [Decidable half] [Decidable low] [Decidable up]

theorem victim_empty {gap : Fin 4} (hgap : ways gap = emptyTag) :
    ways (if half then if low then 0 else 1 else if up then 2 else 3) = emptyTag := by
  obtain ⟨hcold, hsecond, hothers, hlower, hupper⟩ := h
  fin_cases gap <;> grind

theorem fill {line : UInt32} (hline : line ≠ emptyTag) {victim : Fin 4}
    (hvictim : (if half then if low then 0 else 1 else if up then 2 else 3) = victim) :
    Poised (Function.update ways victim line) (victim = 2 ∨ victim = 3)
      (victim = 1 ∨ victim ≠ 0 ∧ low) (victim = 3 ∨ victim ≠ 2 ∧ up) := by
  obtain ⟨hcold, hsecond, hothers, hlower, hupper⟩ := h
  constructor <;> fin_cases victim <;> simp only [Function.update_apply] <;> grind

end Poised

namespace ShadowTags

variable {t : ShadowTags}

def Ready (t : ShadowTags) : Prop := ∀ set, Poised (t.tags set) (t.plru set &&& 0b001 = 0)
  (t.plru set &&& 0b010 = 0) (t.plru set &&& 0b100 = 0)

theorem ready_new : new.Ready := by
  intro set
  constructor <;> simp [new]

theorem wayOf_spec {phys : UInt32} {way : Fin 4} (h : t.wayOf phys = some way) :
    t.tags (setOf phys) way = lineOf phys := by
  simpa using List.find?_some h

theorem wayOf_none {phys : UInt32} (h : t.wayOf phys = none) (way : Fin 4) :
    t.tags (setOf phys) way ≠ lineOf phys := by
  simpa using List.find?_eq_none.mp h way (List.mem_finRange way)

/-- What a probe does to a set: nothing, a hit's touch, or a fill of the way the tree names. -/
theorem probe_cases (t : ShadowTags) (phys : UInt32) (isWrite : Bool) (set : Fin 128) :
    let t' := (t.probe phys isWrite).2
    (t'.tags set = t.tags set ∧ t'.plru set = t.plru set) ∨
    (∃ way, set = setOf phys ∧ t.wayOf phys = some way ∧ t'.tags set = t.tags set ∧
      t'.plru set = plruTouch (t.plru set) way) ∨
    (set = setOf phys ∧ t.wayOf phys = none ∧
      t'.tags set = Function.update (t.tags set) (plruVictim (t.plru set)) (lineOf phys) ∧
      t'.plru set = plruTouch (t.plru set) (plruVictim (t.plru set))) := by
  unfold probe
  by_cases hset : set = setOf phys
  · subst hset
    cases hway : t.wayOf phys with
    | some way => exact .inr (.inl ⟨way, rfl, rfl, rfl, Function.update_self ..⟩)
    | none =>
      cases isWrite
      · exact .inr (.inr ⟨rfl, rfl, Function.update_self .., Function.update_self ..⟩)
      · exact .inl ⟨rfl, rfl⟩
  · refine .inl ?_
    cases t.wayOf phys with
    | some way => exact ⟨rfl, Function.update_of_ne hset ..⟩
    | none =>
      cases isWrite
      · exact ⟨Function.update_of_ne hset .., Function.update_of_ne hset ..⟩
      · exact ⟨rfl, rfl⟩

theorem Ready.not_evictsEarly (h : t.Ready) (e : Event) : ¬t.EvictsEarly e := by
  cases e with
  | flush => exact id
  | probe phys isWrite =>
    rintro ⟨set, way, gap, hway, hgap, hne⟩
    obtain ⟨htags, -⟩ | ⟨-, -, -, htags, -⟩ | ⟨-, -, htags, -⟩ :=
      t.probe_cases phys isWrite set <;> rw [htags] at hne
    · exact hne rfl
    · exact hne rfl
    · have hvictim : way = plruVictim (t.plru set) := by
        by_contra hother
        exact hne (Function.update_of_ne hother ..)
      exact hway (hvictim ▸ (h set).victim_empty hgap)

theorem Ready.step (h : t.Ready) {e : Event} (hspare : t.Spares e) : (t.step e).Ready := by
  cases e with
  | flush => exact ready_new
  | probe phys isWrite =>
    intro set
    obtain ⟨htags, hplru⟩ | ⟨way, rfl, hway, htags, hplru⟩ | ⟨rfl, -, htags, hplru⟩ :=
      t.probe_cases phys isWrite set <;> rw [ShadowTags.step, htags, hplru]
    · exact h set
    · have hvalid : t.tags (setOf phys) way ≠ emptyTag := by
        rw [wayOf_spec hway]
        exact lineOf_ne_emptyTag phys
      rw [touch_half, touch_lower, touch_upper]
      exact (h _).touch hvalid (hspare way · hway)
    · rw [touch_half, touch_lower, touch_upper]
      exact (h _).fill (lineOf_ne_emptyTag phys) rfl

theorem TagsUnique.step (h : t.TagsUnique) (e : Event) : (t.step e).TagsUnique := by
  cases e with
  | flush => exact fun _ _ _ _ hne => absurd rfl hne
  | probe phys isWrite =>
    intro set way way' heq hne
    obtain ⟨htags, -⟩ | ⟨-, -, -, htags, -⟩ | ⟨rfl, hnone, htags, -⟩ :=
      t.probe_cases phys isWrite set <;> rw [ShadowTags.step, htags] at heq hne
    · exact h set way way' heq hne
    · exact h set way way' heq hne
    · simp only [Function.update_apply] at heq hne
      split_ifs at heq hne with h1 h2 h2
      · rw [h1, h2]
      · exact absurd heq.symm (wayOf_none hnone way')
      · exact absurd heq (wayOf_none hnone way)
      · exact h _ way way' heq hne

theorem tagsUnique_run (h : t.TagsUnique) (events : List Event) :
    Runs.Throughout step TagsUnique events t := by
  induction events generalizing t with
  | nil => exact h
  | cons e rest ih => exact ⟨h, ih (h.step e)⟩

theorem ready_run (h : t.Ready) {events : List Event} (hs : Runs.Along step Spares events t) :
    Runs.Along step (fun t e => ¬t.EvictsEarly e) events t := by
  induction events generalizing t with
  | nil => trivial
  | cons e rest ih => exact ⟨h.not_evictsEarly e, ih (h.step hs.1) hs.2⟩

/-- No set ever holds a tag twice; and where every hit spares the way beside the only empty one of its
set, no miss evicts a valid line of a set that has an empty way. -/
theorem replacement_law (events : List Event) :
    Runs.Throughout step TagsUnique events new ∧
      (Runs.Along step Spares events new →
        Runs.Along step (fun t e => ¬t.EvictsEarly e) events new) :=
  ⟨tagsUnique_run (fun _ _ _ _ hne => absurd rfl hne) events, ready_run ready_new⟩

theorem replacement_law_fills :
    Runs.Along step Spares [.probe 0 false, .probe 0x800 false, .probe 0 true, .probe 0x1000 false,
      .probe 0x800 false, .probe 0x1800 false] new ∧
    Runs.Along step (fun t e => ¬t.EvictsEarly e) [.probe 0 false, .probe 0x800 false,
      .probe 0 true, .probe 0x1000 false, .probe 0x800 false, .probe 0x1800 false] new := by
  have hspares : Runs.Along step Spares [.probe 0 false, .probe 0x800 false, .probe 0 true,
      .probe 0x1000 false, .probe 0x800 false, .probe 0x1800 false] new := by decide +kernel
  exact ⟨hspares, (replacement_law _).2 hspares⟩

/-- Three lines fill ways 0, 2 and 1, a hit on the second turns the tree back to way 0, and the fourth
line goes there with way 3 empty. -/
theorem early_eviction :
    EvictsEarly (Runs.exec step
      [.probe 0 false, .probe 0x800 false, .probe 0x1000 false, .probe 0x800 false] new)
      (.probe 0x1800 false) :=
  ⟨0, 0, 3, by decide, by decide, by decide⟩

end ShadowTags

end IzarraVM.Shadow
