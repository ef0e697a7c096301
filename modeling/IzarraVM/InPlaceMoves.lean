import Mathlib

/-! Blocks moved inside a memory one after another, and when each arrives as it was. -/
namespace IzarraVM.Moves

variable {β : Type}

variable (mem : ℕ → β)

def cells (size off : ℕ) : List β := (List.range size).map fun k => mem (off + k)

def put (off : ℕ) (block : List β) : ℕ → β :=
  fun a => if off ≤ a then (block[a - off]?).getD (mem a) else mem a

@[simp] theorem cells_length (size off : ℕ) : (cells mem size off).length = size := by
  unfold cells
  rw [List.length_map, List.length_range]

theorem cells_getElem? {size off k : ℕ} (hk : k < size) :
    (cells mem size off)[k]? = some (mem (off + k)) := by
  unfold cells
  rw [List.getElem?_map, List.getElem?_range hk]
  rfl

theorem cells_congr {mem mem' : ℕ → β} {size off off' : ℕ}
    (h : ∀ k < size, mem (off + k) = mem' (off' + k)) : cells mem size off = cells mem' size off' :=
  List.map_congr_left fun k hk => h k (List.mem_range.mp hk)

theorem cells_eq_iff {mem mem' : ℕ → β} {size off off' : ℕ} :
    cells mem size off = cells mem' size off' ↔ ∀ k < size, mem (off + k) = mem' (off' + k) := by
  refine ⟨fun h k hk => ?_, cells_congr⟩
  have hk' := congrArg (·[k]?) h
  rw [cells_getElem? mem hk, cells_getElem? mem' hk] at hk'
  exact Option.some.inj hk'

theorem put_outside {off a : ℕ} {block : List β}
    (h : ¬ (off ≤ a ∧ a < off + block.length)) : put mem off block a = mem a := by
  unfold put
  split_ifs with hle
  · rw [List.getElem?_eq_none (by omega)]
    rfl
  · rfl

theorem put_inside {off k : ℕ} {block : List β} {b : β}
    (h : block[k]? = some b) : put mem off block (off + k) = b := by
  unfold put
  rw [if_pos (Nat.le_add_right off k), Nat.add_sub_cancel_left, h]
  rfl

/-- A block is read back where it was stored. -/
theorem cells_put (off : ℕ) (block : List β) :
    cells (put mem off block) block.length off = block := by
  apply List.ext_getElem?
  intro k
  by_cases hk : k < block.length
  · rw [cells_getElem? _ hk, put_inside mem (List.getElem?_eq_getElem hk),
      List.getElem?_eq_getElem hk]
  · rw [List.getElem?_eq_none (by rw [cells_length]; omega), List.getElem?_eq_none (by omega)]

theorem put_cells (size off : ℕ) : put mem off (cells mem size off) = mem := by
  funext a
  by_cases h : off ≤ a ∧ a < off + (cells mem size off).length
  · obtain ⟨k, rfl⟩ := Nat.exists_eq_add_of_le h.1
    rw [cells_length] at h
    exact put_inside mem (cells_getElem? mem (by omega))
  · exact put_outside mem h

structure Move where
  src : ℕ
  dst : ℕ
  deriving DecidableEq

def Inside (size off a : ℕ) : Prop := off ≤ a ∧ a < off + size

def Apart (size off off' : ℕ) : Prop := off + size ≤ off' ∨ off' + size ≤ off

instance (size off off' : ℕ) : Decidable (Apart size off off') :=
  inferInstanceAs (Decidable (_ ∨ _))

variable (size : ℕ) (skip : List β → Bool)

def move (mem : ℕ → β) (m : Move) : ℕ → β :=
  if skip (cells mem size m.src) then mem else put mem m.dst (cells mem size m.src)

def run (moves : List Move) (mem : ℕ → β) : ℕ → β := moves.foldl (move size skip) mem

structure Copied (moves : List Move) (old new : ℕ → β) : Prop where
  moved : ∀ m ∈ moves, skip (cells old size m.src) = false →
    cells new size m.dst = cells old size m.src
  kept : ∀ a, (∀ m ∈ moves, skip (cells old size m.src) = false → ¬ Inside size m.dst a) →
    new a = old a

def Undisturbed (first second : Move) : Prop :=
  first.src = first.dst ∨ Apart size first.dst second.src

instance (first second : Move) : Decidable (Undisturbed size first second) :=
  inferInstanceAs (Decidable (_ ∨ _))

variable {size skip}

theorem move_outside (mem : ℕ → β) {m : Move} {a : ℕ} (h : ¬ Inside size m.dst a) :
    move size skip mem m a = mem a := by
  unfold move
  split_ifs
  · rfl
  · refine put_outside mem ?_
    rw [cells_length]
    exact h

theorem run_outside {a : ℕ} (moves : List Move) : ∀ mem : ℕ → β,
    (∀ m ∈ moves, ¬ Inside size m.dst a) → run size skip moves mem a = mem a := by
  induction moves with
  | nil => exact fun _ _ => rfl
  | cons m rest ih =>
    intro mem h
    have hrest := ih (move size skip mem m) fun m' hm' => h m' (List.mem_cons_of_mem m hm')
    rw [move_outside mem (h m List.mem_cons_self)] at hrest
    exact hrest

section

variable (mem : ℕ → β)

theorem cells_move_apart {m : Move} {off : ℕ} (h : Apart size m.dst off) :
    cells (move size skip mem m) size off = cells mem size off := by
  apply cells_congr
  intro k hk
  apply move_outside
  unfold Inside Apart at *
  omega

theorem cells_move_dst {m : Move} (h : skip (cells mem size m.src) = false) :
    cells (move size skip mem m) size m.dst = cells mem size m.src := by
  have hput := cells_put mem m.dst (cells mem size m.src)
  rw [cells_length] at hput
  unfold move
  rw [h]
  exact hput

theorem move_self {m : Move} (h : m.src = m.dst) : move size skip mem m = mem := by
  unfold move
  rw [h, put_cells, ite_self]

theorem cells_move_undisturbed {m m' : Move} (h : Undisturbed size m m') :
    cells (move size skip mem m) size m'.src = cells mem size m'.src := by
  rcases h with hself | hapart
  · rw [move_self mem hself]
  · exact cells_move_apart mem hapart

end

/-- Moves that do not disturb later ones copy every block. -/
theorem run_copied {moves : List Move} (hdst : moves.Pairwise fun m m' => Apart size m.dst m'.dst)
    (hsafe : moves.Pairwise (Undisturbed size)) :
    ∀ mem : ℕ → β, Copied size skip moves mem (run size skip moves mem) := by
  induction moves with
  | nil => exact fun mem => ⟨nofun, fun _ _ => rfl⟩
  | cons m rest ih =>
    intro mem
    obtain ⟨hdst, hdstRest⟩ := List.pairwise_cons.mp hdst
    obtain ⟨hsafe, hsafeRest⟩ := List.pairwise_cons.mp hsafe
    obtain ⟨hmoved, hkept⟩ := ih hdstRest hsafeRest (move size skip mem m)
    -- the rest reads what it would have read before the first move
    have hread : ∀ m' ∈ rest,
        cells (move size skip mem m) size m'.src = cells mem size m'.src :=
      fun m' hm' => cells_move_undisturbed mem (hsafe m' hm')
    refine ⟨fun m' hm' hkeep => ?_, fun a ha => ?_⟩
    · rcases List.mem_cons.mp hm' with rfl | hm'
      · -- no later move writes to the first's destination
        rw [← cells_move_dst mem hkeep]
        apply cells_congr
        intro k hk
        show run size skip rest _ _ = _
        apply run_outside
        intro m'' hm'' hinside
        have hapart := hdst m'' hm''
        unfold Apart Inside at *
        omega
      · rw [← hread m' hm'] at hkeep ⊢
        exact hmoved m' hm' hkeep
    · have hfirst : move size skip mem m a = mem a := by
        cases hkeep : skip (cells mem size m.src) with
        | true =>
          unfold move
          rw [if_pos hkeep]
        | false => exact move_outside mem (ha m List.mem_cons_self hkeep)
      rw [← hfirst]
      apply hkept
      intro m' hm' hkeep
      rw [hread m' hm'] at hkeep
      exact ha m' (List.mem_cons_of_mem m hm') hkeep

/-- Moves bring no new values. -/
theorem run_values {P : β → Prop} (moves : List Move) : ∀ mem : ℕ → β, (∀ a, P (mem a)) →
    ∀ a, P (run size skip moves mem a) := by
  induction moves with
  | nil => exact fun _ h => h
  | cons m rest ih =>
    intro mem h
    refine ih (move size skip mem m) fun a => ?_
    by_cases hinside : Inside size m.dst a
    · obtain ⟨k, rfl⟩ := Nat.exists_eq_add_of_le hinside.1
      unfold move
      split_ifs
      · exact h _
      · rw [put_inside mem (cells_getElem? mem (by unfold Inside at hinside; omega))]
        exact h _
    · rw [move_outside mem hinside]
      exact h a

/-- Two moves of which the first overwrites a cell that the second reads leave the second's block
wrong in a memory where that cell alone differs from what replaces it. -/
theorem undisturbed_of_copied {moves : List Move} {low high : β} (hne : low ≠ high)
    (hskip : ∀ block : List β, block.length = size → (∀ b ∈ block, b = low ∨ b = high) →
      skip block = false)
    (hdst : moves.Pairwise fun m m' => Apart size m.dst m'.dst)
    (h : ∀ mem : ℕ → β, Copied size skip moves mem (run size skip moves mem)) :
    moves.Pairwise (Undisturbed size) := by
  rw [List.pairwise_iff_forall_sublist]
  intro first second hsub
  by_contra hdisturbed
  unfold Undisturbed Apart at hdisturbed
  push Not at hdisturbed
  obtain ⟨hself, hbefore, hafter⟩ := hdisturbed
  -- a cell that the first move writes and the second reads
  obtain ⟨k, l, hk, hl, hcell⟩ : ∃ k l, k < size ∧ l < size ∧ first.dst + k = second.src + l := by
    by_cases hle : first.dst ≤ second.src
    · exact ⟨second.src - first.dst, 0, by omega, by omega, by omega⟩
    · exact ⟨0, first.dst - second.src, by omega, by omega, by omega⟩
  obtain ⟨before, after, hsplit, hfirst, hsecond⟩ := List.cons_sublist_iff.mp hsub
  obtain ⟨middle, last, rfl⟩ := List.append_of_mem (List.singleton_sublist.mp hsecond)
  obtain ⟨ran, hran, hmoves⟩ : ∃ ran, first ∈ ran ∧ moves = ran ++ second :: last :=
    ⟨before ++ middle, List.mem_append_left middle hfirst, by rw [hsplit, List.append_assoc]⟩
  obtain ⟨-, hdstRest, hdstAcross⟩ := List.pairwise_append.mp (hmoves ▸ hdst)
  let mem : ℕ → β := fun a => if a = first.src + k then high else low
  have hnever : ∀ moves' off, skip (cells (run size skip moves' mem) size off) = false := by
    intro moves' off
    refine hskip _ (cells_length _ _ _) fun b hb => ?_
    obtain ⟨i, -, rfl⟩ := List.mem_map.mp hb
    apply run_values (P := fun b => b = low ∨ b = high)
    intro a
    exact ite_eq_or_eq _ _ _ |>.symm
  have hcopied := h mem
  rw [hmoves] at hcopied
  have hgot := cells_eq_iff.mp (hcopied.moved first (List.mem_append_left _ hran) (hnever [] _)) k hk
  have hgot' := cells_eq_iff.mp
    (hcopied.moved second (List.mem_append_right _ List.mem_cons_self) (hnever [] _)) l hl
  rw [run, List.foldl_append] at hgot hgot'
  change run size skip (second :: last) (run size skip ran mem) _ = _ at hgot hgot'
  -- the second move reads the cell as the first left it, and no move after it writes there again
  rw [run_outside] at hgot
  · have hread : run size skip (second :: last) (run size skip ran mem) (second.dst + l) =
        run size skip ran mem (second.src + l) := by
      have hmoved := cells_eq_iff.mp
        (cells_move_dst (run size skip ran mem) (hnever ran second.src)) l hl
      rw [← hmoved]
      show run size skip last _ _ = _
      apply run_outside
      intro m hm hinside
      have hapart := (List.pairwise_cons.mp hdstRest).1 m hm
      unfold Apart Inside at *
      omega
    rw [hread, ← hcell, hgot] at hgot'
    have hhigh : mem (first.src + k) = high := if_pos rfl
    have hlow : mem (first.dst + k) = low := if_neg (by omega)
    rw [hhigh, hlow] at hgot'
    exact hne hgot'.symm
  · intro m hm hinside
    have hapart := hdstAcross first hran m hm
    unfold Apart Inside at *
    omega

/-- With two values that are never skipped, the moves copy every block in every memory exactly when
none of them disturbs a later one. -/
theorem copied_iff {moves : List Move} {low high : β} (hne : low ≠ high)
    (hskip : ∀ block : List β, block.length = size → (∀ b ∈ block, b = low ∨ b = high) →
      skip block = false)
    (hdst : moves.Pairwise fun m m' => Apart size m.dst m'.dst) :
    (∀ mem : ℕ → β, Copied size skip moves mem (run size skip moves mem)) ↔
      moves.Pairwise (Undisturbed size) :=
  ⟨undisturbed_of_copied hne hskip hdst, run_copied hdst⟩

end IzarraVM.Moves
