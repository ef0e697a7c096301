import Mathlib

/-! Ordered maps as lists sorted by key, with the least entry at the front. -/
namespace IzarraVM

structure SortedMap (K V : Type*) [LinearOrder K] where
  entries : List (K × V)
  sorted : entries.Pairwise fun a b => a.1 < b.1

namespace SortedMap

variable {K V : Type*} [LinearOrder K] (m : SortedMap K V) (k : K) (v : V)

instance : Membership (K × V) (SortedMap K V) := ⟨fun m p => p ∈ m.entries⟩

def empty : SortedMap K V := ⟨[], List.Pairwise.nil⟩

def remove : SortedMap K V where
  entries := m.entries.filter fun p => p.1 ≠ k
  sorted := m.sorted.filter _

def insert : SortedMap K V where
  entries := (m.entries.filter fun p => p.1 < k) ++ (k, v) :: m.entries.filter fun p => k < p.1
  sorted := by
    have hlow : ∀ p ∈ m.entries.filter (fun p => p.1 < k), p.1 < k := by simp
    have hhigh : ∀ p ∈ m.entries.filter (fun p => k < p.1), k < p.1 := by simp
    refine List.pairwise_append.mpr ⟨m.sorted.filter _, ?_, ?_⟩
    · exact List.pairwise_cons.mpr ⟨hhigh, m.sorted.filter _⟩
    · intro a ha b hb
      rcases List.mem_cons.mp hb with rfl | hb
      · exact hlow a ha
      · exact (hlow a ha).trans (hhigh b hb)

def first? : Option (K × V) := m.entries.head?

theorem notMem_empty (p : K × V) : p ∉ (empty : SortedMap K V) := List.not_mem_nil

variable {p : K × V}

theorem mem_remove : p ∈ m.remove k ↔ p ∈ m ∧ p.1 ≠ k := by
  change p ∈ m.entries.filter _ ↔ _
  rw [List.mem_filter, decide_eq_true_eq]
  rfl

theorem mem_insert : p ∈ m.insert k v ↔ p = (k, v) ∨ (p ∈ m ∧ p.1 ≠ k) := by
  change p ∈ (m.entries.filter fun p => p.1 < k) ++ (k, v) :: m.entries.filter _ ↔
    p = (k, v) ∨ (p ∈ m.entries ∧ _)
  simp only [List.mem_append, List.mem_filter, List.mem_cons, decide_eq_true_eq]
  have hne : p.1 ≠ k ↔ p.1 < k ∨ k < p.1 := ne_iff_lt_or_gt
  tauto

theorem mem_of_first? (h : m.first? = some p) : p ∈ m := List.mem_of_head? h

theorem notMem_of_first? (h : m.first? = none) (p : K × V) : p ∉ m := by
  have hnil : m.entries = [] := List.head?_eq_none_iff.mp h
  change p ∉ m.entries
  rw [hnil]
  exact List.not_mem_nil

theorem eq_of_mem {a b : V} (ha : (k, a) ∈ m) (hb : (k, b) ∈ m) : a = b := by
  by_contra hne
  have hpair : (k, a) ≠ (k, b) := fun h => hne (Prod.ext_iff.mp h).2
  have hne' : m.entries.Pairwise fun p q => p.1 ≠ q.1 := m.sorted.imp fun h => ne_of_lt h
  have : Std.Symm fun p q : K × V => p.1 ≠ q.1 := ⟨fun _ _ h => h.symm⟩
  exact hne'.forall ha hb hpair rfl

theorem length_remove_lt (h : p ∈ m) :
    (m.remove p.1).entries.length < m.entries.length :=
  List.length_filter_lt_length_iff_exists.mpr ⟨p, h, by simp⟩

end SortedMap

end IzarraVM
