import Mathlib

/-! Host paths as lists of components. Joining takes a text apart as a Unix host does. -/
namespace IzarraVM

abbrev Component := List Char

abbrev HostPath := List Component

namespace HostPath

def splitSlash : List Char → List Component
  | [] => [[]]
  | c :: rest =>
    if c = '/' then [] :: splitSlash rest
    else
      match splitSlash rest with
      | [] => [[c]]
      | s :: more => (c :: s) :: more

def components (text : List Char) : HostPath :=
  (if text.head? = some '/' then [['/']] else []) ++
    (splitSlash text).filter fun s => decide (s ≠ [] ∧ s ≠ ['.'])

def join (p : HostPath) (text : List Char) : HostPath :=
  if text.head? = some '/' then components text else p ++ components text

def fileName (p : HostPath) : Option Component :=
  p.getLast?.filter fun c => decide (c ≠ ['.', '.'] ∧ c ≠ ['/'])

def withFileName (p : HostPath) (name : List Char) : HostPath :=
  join (if (fileName p).isSome then p.dropLast else p) name

def parent (p : HostPath) : Option HostPath :=
  if p = [] ∨ p.getLast? = some ['/'] then none else some p.dropLast

structure Plain (c : Component) : Prop where
  ne_nil : c ≠ []
  ne_dot : c ≠ ['.']
  ne_dotdot : c ≠ ['.', '.']
  chars : ∀ x ∈ c, x ≠ '/' ∧ x ≠ '\\' ∧ x ≠ ':' ∧ x ≠ '\x00'

def Within (root p : HostPath) : Prop := ∃ below, (∀ c ∈ below, Plain c) ∧ p = root ++ below

def Inside (root p : HostPath) : Prop :=
  ∃ below, below ≠ [] ∧ (∀ c ∈ below, Plain c) ∧ p = root ++ below

variable {root p : HostPath} {c : Component}

theorem Within.refl (root : HostPath) : Within root root := ⟨[], by simp, by simp⟩

theorem Inside.within (h : Inside root p) : Within root p := by
  obtain ⟨below, -, hplain, rfl⟩ := h
  exact ⟨below, hplain, rfl⟩

theorem Within.inside_append (h : Within root p) (hc : Plain c) : Inside root (p ++ [c]) := by
  obtain ⟨below, hplain, rfl⟩ := h
  refine ⟨below ++ [c], by simp, ?_, by simp⟩
  intro x hx
  rcases List.mem_append.mp hx with hx | hx
  · exact hplain x hx
  · rw [List.mem_singleton.mp hx]
    exact hc

/-- What lies below `root` is a plain component in a directory within `root`. -/
theorem Inside.last (h : Inside root p) : ∃ d c, Within root d ∧ Plain c ∧ p = d ++ [c] := by
  obtain ⟨below, hne, hplain, rfl⟩ := h
  refine ⟨root ++ below.dropLast, below.getLast hne, ⟨below.dropLast, ?_, rfl⟩,
    hplain _ (List.getLast_mem hne), ?_⟩
  · intro x hx
    exact hplain x (List.dropLast_subset _ hx)
  · rw [List.append_assoc, List.dropLast_concat_getLast hne]

theorem splitSlash_of_notMem {text : List Char} (h : '/' ∉ text) : splitSlash text = [text] := by
  induction text with
  | nil => rfl
  | cons c rest ih =>
    obtain ⟨hc, hrest⟩ := not_or.mp fun hmem => h (List.mem_cons.mpr hmem)
    simp only [splitSlash, if_neg (Ne.symm hc), ih hrest]

theorem Plain.notMem_slash (h : Plain c) : '/' ∉ c := fun hmem => (h.chars _ hmem).1 rfl

theorem join_plain (p : HostPath) (h : Plain c) : join p c = p ++ [c] := by
  have hhead : c.head? ≠ some '/' := fun hc => h.notMem_slash (List.mem_of_mem_head? hc)
  have hcomps : components c = [c] := by
    simp [components, hhead, splitSlash_of_notMem h.notMem_slash, h.ne_nil, h.ne_dot]
  rw [join, if_neg hhead, hcomps]

theorem Within.inside_join (h : Within root p) (hc : Plain c) : Inside root (join p c) := by
  rw [join_plain p hc]
  exact h.inside_append hc

theorem fileName_append (p : HostPath) (h : Plain c) : fileName (p ++ [c]) = some c := by
  have hslash : c ≠ ['/'] := fun hc => h.notMem_slash (by simp [hc])
  simp [fileName, h.ne_dotdot, hslash]

/-- A suffix on the file name keeps a path in its directory. -/
theorem withFileName_append (p : HostPath) (h : Plain c) {suffix : List Char}
    (hsuffix : Plain (c ++ suffix)) :
    withFileName (p ++ [c]) (c ++ suffix) = p ++ [c ++ suffix] := by
  rw [withFileName, fileName_append p h]
  simp [join_plain p hsuffix]

end HostPath

end IzarraVM
