import Mathlib

/-! Finite maps filled from a list of pairs. -/
namespace IzarraVM

variable {K V : Type} [DecidableEq K]

def insertAll (l : List (K × V)) (m : AList fun _ : K => V) : AList fun _ : K => V :=
  l.foldl (fun m p => m.insert p.1 p.2) m

variable {l : List (K × V)} {m : AList fun _ : K => V} {k k' : K} {v v' : V}

/-- A map with one more entry holds that, and of the other keys what it held. -/
theorem lookup_insert_some (h : (m.insert k v).lookup k' = some v') :
    k' = k ∧ v' = v ∨ k' ≠ k ∧ m.lookup k' = some v' := by
  by_cases hk : k' = k
  · subst hk
    exact Or.inl ⟨rfl, Option.some.inj (h.symm.trans (AList.lookup_insert m))⟩
  · exact Or.inr ⟨hk, (AList.lookup_insert_ne hk).symm.trans h⟩

theorem lookup_erase_some (h : (m.erase k).lookup k' = some v') :
    k' ≠ k ∧ m.lookup k' = some v' := by
  by_cases hk : k' = k
  · rw [hk, AList.lookup_erase] at h
    cases h
  · exact ⟨hk, (AList.lookup_erase_ne hk).symm.trans h⟩

/-- What the map holds came from the list or was there before. -/
theorem mem_of_lookup_insertAll (h : (insertAll l m).lookup k = some v) :
    (k, v) ∈ l ∨ m.lookup k = some v := by
  induction l generalizing m with
  | nil => exact Or.inr h
  | cons p rest ih =>
    rcases ih h with hrest | hm
    · exact Or.inl (List.mem_cons_of_mem p hrest)
    · rcases lookup_insert_some hm with ⟨rfl, rfl⟩ | ⟨-, hm⟩
      · exact Or.inl List.mem_cons_self
      · exact Or.inr hm

end IzarraVM
