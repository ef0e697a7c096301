import Mathlib

/-! Answers kept with the cells they were computed from, until one of these is written. -/
namespace IzarraVM.EpochMemo

variable {ι α : Type*} [DecidableEq ι]

structure Stamps (ι : Type*) [DecidableEq ι] where
  epoch : ℕ
  stamps : AList fun _ : ι => ℕ
  dated : ∀ i e, stamps.lookup i = some e → e ≤ epoch

namespace Stamps

def start : Stamps ι := ⟨0, ∅, fun i e h => by cases h⟩

variable (s : Stamps ι)

def stamp (i : ι) : ℕ := (s.stamps.lookup i).getD 0

theorem stamp_le (i : ι) : s.stamp i ≤ s.epoch := by
  unfold stamp
  cases h : s.stamps.lookup i with
  | none => exact Nat.zero_le _
  | some e => exact s.dated i e h

def touch (i : ι) : Stamps ι where
  epoch := s.epoch + 1
  stamps := s.stamps.insert i (s.epoch + 1)
  dated := by
    intro j e h
    by_cases hij : j = i
    · subst hij
      rw [AList.lookup_insert] at h
      exact Nat.le_of_eq (Option.some.inj h).symm
    · rw [AList.lookup_insert_ne hij] at h
      exact Nat.le_succ_of_le (s.dated j e h)

theorem stamp_touch_self (i : ι) : (s.touch i).stamp i = s.epoch + 1 := by
  unfold stamp touch
  rw [AList.lookup_insert]
  rfl

theorem stamp_touch_ne {i j : ι} (h : j ≠ i) : (s.touch i).stamp j = s.stamp j := by
  unfold stamp touch
  rw [AList.lookup_insert_ne h]

def isCurrent (epoch : ℕ) (cells : List ι) : Bool :=
  decide (s.epoch = epoch) || cells.all fun i => decide (s.stamp i ≤ epoch)

theorem isCurrent_iff (epoch : ℕ) (cells : List ι) :
    s.isCurrent epoch cells = true ↔ ∀ i ∈ cells, s.stamp i ≤ epoch := by
  simp only [isCurrent, Bool.or_eq_true, decide_eq_true_eq, List.all_eq_true]
  refine ⟨?_, .inr⟩
  rintro (rfl | h)
  · exact fun i _ => s.stamp_le i
  · exact h

/-- A write leaves current only what was current and was not computed from its cell. -/
theorem isCurrent_of_touch {s : Stamps ι} {i : ι} {epoch : ℕ} {cells : List ι}
    (hpast : epoch ≤ s.epoch) (h : (s.touch i).isCurrent epoch cells = true) :
    s.isCurrent epoch cells = true ∧ ∀ j ∈ cells, j ≠ i := by
  rw [isCurrent_iff] at h ⊢
  have hne : ∀ j ∈ cells, j ≠ i := by
    rintro j hj rfl
    have hstamp := h j hj
    rw [stamp_touch_self] at hstamp
    omega
  refine ⟨fun j hj => ?_, hne⟩
  rw [← s.stamp_touch_ne (hne j hj)]
  exact h j hj

end Stamps

def Pinned (right : (ι → α) → Prop) (cells : List ι) (view : ι → α) : Prop :=
  ∀ view', (∀ i ∈ cells, view' i = view i) → right view'

omit [DecidableEq ι] in
theorem Pinned.congr {right : (ι → α) → Prop} {cells : List ι} {view view' : ι → α}
    (h : Pinned right cells view) (hsame : ∀ i ∈ cells, view' i = view i) :
    Pinned right cells view' := by
  intro view'' hview
  apply h
  intro i hi
  exact (hview i hi).trans (hsame i hi)

structure Dated (s : Stamps ι) (view : ι → α) (right : (ι → α) → Prop) (epoch : ℕ)
    (cells : List ι) : Prop where
  past : epoch ≤ s.epoch
  pinned : s.isCurrent epoch cells = true → Pinned right cells view

namespace Dated

variable {s : Stamps ι} {view view' : ι → α} {right : (ι → α) → Prop} {epoch : ℕ} {cells : List ι}

/-- An answer computed now. -/
theorem now (h : Pinned right cells view) : Dated s view right s.epoch cells :=
  ⟨Nat.le_refl _, fun _ => h⟩

/-- A current answer is right. -/
theorem right_of_current (h : Dated s view right epoch cells)
    (hcurrent : s.isCurrent epoch cells = true) : right view :=
  h.pinned hcurrent view fun _ _ => rfl

theorem congr (h : Dated s view right epoch cells) (hsame : ∀ i, view' i = view i) :
    Dated s view' right epoch cells :=
  ⟨h.past, fun hcurrent => (h.pinned hcurrent).congr fun i _ => hsame i⟩

/-- A write that stamps its cell keeps every answer right or outdated. -/
theorem touch (h : Dated s view right epoch cells) {i : ι} (hsame : ∀ j, j ≠ i → view' j = view j) :
    Dated (s.touch i) view' right epoch cells := by
  refine ⟨Nat.le_succ_of_le h.past, fun hcurrent => ?_⟩
  obtain ⟨hbefore, hne⟩ := Stamps.isCurrent_of_touch h.past hcurrent
  exact (h.pinned hbefore).congr fun j hj => hsame j (hne j hj)

end Dated

end IzarraVM.EpochMemo
