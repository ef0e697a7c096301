import Mathlib

/-! A bounded cache that evicts the entry used longest ago, true to the store behind it. -/
namespace IzarraVM

structure LruCache (κ ν : Type*) (capacity : ℕ) where
  entries : List (κ × ν)
  enabled : Bool
  bounded : entries.length ≤ capacity
  off : enabled = false → entries = []
  deriving DecidableEq

namespace LruCache

variable {κ ν : Type*} [DecidableEq κ] {capacity : ℕ}

def empty (enabled : Bool) : LruCache κ ν capacity where
  entries := []
  enabled := enabled
  bounded := Nat.zero_le capacity
  off := fun _ => rfl

def touch (entries : List (κ × ν)) (key : κ) : List (κ × ν) :=
  entries.filter (fun e => e.1 = key) ++ entries.filter (fun e => e.1 ≠ key)

theorem mem_touch {entries : List (κ × ν)} {key : κ} {e : κ × ν} :
    e ∈ touch entries key ↔ e ∈ entries := by
  by_cases h : e.1 = key <;> simp [touch, h]

theorem length_touch (entries : List (κ × ν)) (key : κ) :
    (touch entries key).length = entries.length := by
  rw [touch, List.length_append, ← List.countP_eq_length_filter, ← List.countP_eq_length_filter,
    List.length_eq_countP_add_countP (fun e => decide (e.1 = key)) (l := entries)]
  simp

def get (c : LruCache κ ν capacity) (key : κ) : Option ν × LruCache κ ν capacity :=
  if c.enabled then
    match c.entries.find? (fun e => e.1 = key) with
    | some e =>
      (some e.2, { c with
        entries := touch c.entries key
        bounded := Nat.le_trans (Nat.le_of_eq (length_touch c.entries key)) c.bounded
        off := fun hoff => by rw [c.off hoff]; rfl })
    | none => (none, c)
  else (none, c)

theorem length_replace {entries : List (κ × ν)} {key : κ}
    (hres : entries.any (fun e => e.1 = key)) :
    (entries.filter (fun e => e.1 ≠ key)).length + 1 ≤ entries.length := by
  obtain ⟨e, he, hkey⟩ := List.any_eq_true.mp hres
  apply Nat.succ_le_of_lt
  apply List.length_filter_lt_length_iff_exists.mpr
  exact ⟨e, he, by simpa using hkey⟩

def put (c : LruCache κ ν capacity) (key : κ) (value : ν) : LruCache κ ν capacity :=
  if hoff : c.enabled = false then c
  else if hres : c.entries.any (fun e => e.1 = key) then
    { c with
      entries := (key, value) :: c.entries.filter (fun e => e.1 ≠ key)
      bounded := Nat.le_trans (length_replace hres) c.bounded
      off := fun h => absurd h hoff }
  else if hfree : c.entries.length < capacity then
    { c with
      entries := (key, value) :: c.entries
      bounded := hfree
      off := fun h => absurd h hoff }
  else if hfull : c.entries = [] then c
  else
    { c with
      entries := (key, value) :: c.entries.dropLast
      bounded := by
        have hlen := List.length_pos_iff.mpr hfull
        have hle := c.bounded
        rw [List.length_cons, List.length_dropLast]
        omega
      off := fun h => absurd h hoff }

def Coherent (c : LruCache κ ν capacity) (store : κ → Option ν) : Prop :=
  ∀ e ∈ c.entries, store e.1 = some e.2

omit [DecidableEq κ] in
theorem coherent_empty (enabled : Bool) (store : κ → Option ν) :
    (empty enabled : LruCache κ ν capacity).Coherent store := by
  intro e he
  exact absurd he (List.not_mem_nil)

theorem Coherent.get {c : LruCache κ ν capacity} {store : κ → Option ν}
    (h : c.Coherent store) (key : κ) : (c.get key).2.Coherent store := by
  unfold LruCache.get
  split
  · split
    · intro e he
      exact h e (mem_touch.mp he)
    · exact h
  · exact h

/-- A hit is what the store holds. -/
theorem Coherent.get_eq {c : LruCache κ ν capacity} {store : κ → Option ν}
    (h : c.Coherent store) {key : κ} {value : ν} (hit : (c.get key).1 = some value) :
    store key = some value := by
  unfold LruCache.get at hit
  split at hit
  · split at hit
    · rename_i e hfind
      have hkey : e.1 = key := by simpa using List.find?_some hfind
      have hval : e.2 = value := by simpa using hit
      rw [← hkey, ← hval]
      exact h e (List.mem_of_find?_eq_some hfind)
    · cases hit
  · cases hit

/-- Storing what the store now holds keeps the cache true to it, if the store changed at
that key only. -/
theorem Coherent.put {c : LruCache κ ν capacity} {store store' : κ → Option ν}
    (h : c.Coherent store) {key : κ} {value : ν} (hkey : store' key = some value)
    (hrest : ∀ k, k ≠ key → store' k = store k) :
    (c.put key value).Coherent store' := by
  -- an entry that survives the change is of another key, since one of this key is replaced
  have hother : ∀ e ∈ c.entries, e.1 ≠ key → store' e.1 = some e.2 := by
    intro e he hne
    rw [hrest e.1 hne]
    exact h e he
  have hcons : ∀ rest : List (κ × ν), (∀ e ∈ rest, e ∈ c.entries ∧ e.1 ≠ key) →
      ∀ e ∈ (key, value) :: rest, store' e.1 = some e.2 := by
    intro rest hsub e he
    rcases List.mem_cons.mp he with rfl | he
    · exact hkey
    · exact hother e (hsub e he).1 (hsub e he).2
  unfold LruCache.put
  split
  · rename_i hoff
    intro e he
    rw [c.off hoff] at he
    exact absurd he List.not_mem_nil
  · split
    · apply hcons
      intro e he
      simpa using List.mem_filter.mp he
    · rename_i habsent
      have hne : ∀ e ∈ c.entries, e.1 ≠ key := by
        intro e he heq
        exact habsent (List.any_eq_true.mpr ⟨e, he, decide_eq_true heq⟩)
      split
      · exact hcons _ fun e he => ⟨he, hne e he⟩
      · split
        · intro e he
          exact hother e he (hne e he)
        · apply hcons
          intro e he
          have hmem := List.dropLast_subset c.entries he
          exact ⟨hmem, hne e hmem⟩

end LruCache

end IzarraVM
