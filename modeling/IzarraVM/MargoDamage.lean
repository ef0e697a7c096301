import IzarraVM.MargoExtents
import IzarraVM.MargoScanout
import IzarraVM.StepRuns

/-! The rows reported as changed, in runs where no blit draws past the rows it reports. -/
namespace IzarraVM.Margo

open Moves

def Covered (ranges : List (ℕ × ℕ)) (y : ℕ) : Prop := ∃ r ∈ ranges, r.1 ≤ y ∧ y < r.2

def DirtyRow (generation : ℕ) (rows : List ℕ) (y : ℕ) : Prop :=
  ∃ changed, rows[y]? = some changed ∧ Device.rowDirty generation changed = true

theorem covered_append {ranges : List (ℕ × ℕ)} {r : ℕ × ℕ} {y : ℕ} :
    Covered (ranges ++ [r]) y ↔ Covered ranges y ∨ (r.1 ≤ y ∧ y < r.2) := by
  unfold Covered
  simp only [List.mem_append, List.mem_singleton, or_and_right, exists_or, exists_eq_left]

structure Scanned (generation : ℕ) (done : List ℕ) (s : Device.RowScan) : Prop where
  row : s.row = done.length
  opened : ∀ first, s.start = some first → first < s.row
  found : ∀ y, DirtyRow generation done y ↔
    Covered s.ranges y ∨ ∃ first, s.start = some first ∧ first ≤ y ∧ y < s.row

theorem dirtyRow_append {generation changed : ℕ} {done : List ℕ} {y : ℕ} :
    DirtyRow generation (done ++ [changed]) y ↔ DirtyRow generation done y ∨
      (y = done.length ∧ Device.rowDirty generation changed = true) := by
  unfold DirtyRow
  rcases Nat.lt_trichotomy y done.length with hlt | heq | hgt
  · rw [List.getElem?_append_left hlt]
    have hne : y ≠ done.length := by omega
    simp only [hne, false_and, or_false]
  · subst heq
    simp
  · rw [List.getElem?_eq_none (by rw [List.length_append, List.length_singleton]; omega),
      List.getElem?_eq_none (by omega)]
    have hne : y ≠ done.length := by omega
    simp only [hne, false_and, or_false]

/-- One row of the scan. -/
theorem Scanned.scanRow {generation : ℕ} {done : List ℕ} {s : Device.RowScan}
    (h : Scanned generation done s) (changed : ℕ) :
    Scanned generation (done ++ [changed]) (Device.scanRow generation s changed) := by
  obtain ⟨hrow, hopened, hfound⟩ := h
  have hlen : s.row + 1 = (done ++ [changed]).length := by
    rw [List.length_append, List.length_singleton, hrow]
  unfold Device.scanRow
  cases hstart : s.start with
  | none =>
    cases hdirty : Device.rowDirty generation changed with
    | true =>
      refine ⟨hlen, fun first hfirst => ?_, fun y => ?_⟩
      · cases hfirst
        exact Nat.lt_succ_self _
      · rw [dirtyRow_append, hfound, hstart, hdirty, ← hrow]
        dsimp only
        simp only [Option.some.injEq, exists_eq_left', reduceCtorEq, false_and, exists_false, or_false,
          and_true]
        exact or_congr Iff.rfl (by omega)
    | false =>
      refine ⟨hlen, fun first hfirst => ?_, fun y => ?_⟩
      · cases hfirst
      · rw [dirtyRow_append, hfound, hstart, hdirty]
        simp only [reduceCtorEq, false_and, exists_false, or_false, and_false, Bool.false_eq_true]
  | some first =>
    have hfirst := hopened first hstart
    cases hdirty : Device.rowDirty generation changed with
    | true =>
      refine ⟨hlen, fun f hf => ?_, fun y => ?_⟩
      · cases hf
        exact Nat.lt_succ_of_lt hfirst
      · rw [dirtyRow_append, hfound, hstart, hdirty, ← hrow]
        simp only [Option.some.injEq, exists_eq_left', and_true, or_assoc]
        exact or_congr Iff.rfl (by omega)
    | false =>
      refine ⟨hlen, nofun, fun y => ?_⟩
      rw [dirtyRow_append, hfound, hstart, hdirty]
      dsimp only
      rw [covered_append]
      simp only [Option.some.injEq, exists_eq_left', reduceCtorEq, false_and, exists_false, or_false,
        and_false, Bool.false_eq_true]

theorem scanned_foldl {generation : ℕ} (rows : List ℕ) : ∀ {done : List ℕ} {s : Device.RowScan},
    Scanned generation done s →
    Scanned generation (done ++ rows) (rows.foldl (Device.scanRow generation) s) := by
  induction rows with
  | nil =>
    intro done s h
    rw [List.append_nil]
    exact h
  | cons changed rows ih =>
    intro done s h
    have hrest := ih (h.scanRow changed)
    rw [List.append_assoc, List.singleton_append] at hrest
    exact hrest

/-- The ranges are those of the rows with a later generation. -/
theorem covered_changedRowsSince (m : Device) (generation y : ℕ) :
    Covered (m.changedRowsSince generation) y ↔ DirtyRow generation m.rowGenerations y := by
  have hempty : Scanned generation [] ⟨[], none, 0⟩ := by
    refine ⟨rfl, nofun, fun y => ?_⟩
    simp [DirtyRow, Covered]
  obtain ⟨hrow, -, hfound⟩ := scanned_foldl m.rowGenerations hempty
  rw [List.nil_append] at hrow hfound
  rw [hfound]
  unfold Device.changedRowsSince
  dsimp only
  cases hstart : (m.rowGenerations.foldl (Device.scanRow generation) ⟨[], none, 0⟩).start with
  | none =>
    simp only [reduceCtorEq, false_and, exists_false, or_false]
  | some first =>
    dsimp only
    rw [covered_append, hrow]
    simp only [Option.some.injEq, exists_eq_left']

/-- A generation fewer than `2 ^ 63` steps later is a later one, in wrapping arithmetic. -/
theorem rowDirty_later {generation k : ℕ} (hgen : generation < 2 ^ 64) (hpos : 0 < k)
    (hk : k < 2 ^ 63) : Device.rowDirty generation ((generation + k) % 2 ^ 64) = true := by
  have hsplit : (generation + k) % 2 ^ 64 = generation + k ∨
      (generation + k) % 2 ^ 64 + 2 ^ 64 = generation + k := by omega
  have hne : (generation + k) % 2 ^ 64 ≠ generation := by omega
  have hlt : ((generation + k) % 2 ^ 64 + (2 ^ 64 - generation)) % 2 ^ 64 < 2 ^ 63 := by omega
  unfold Device.rowDirty
  rw [Bool.and_eq_true, decide_eq_true_iff, bne_iff_ne]
  exact ⟨hlt, hne⟩

variable (palette : ℕ → ℕ)

def Device.rowAt (m : Device) (y : ℕ) : Option (List ℕ) :=
  if y < m.display.height then some (m.screen.scanoutRow palette y) else none

def KeptRow (m m' : Device) (y : ℕ) : Prop :=
  m'.rowAt palette y = m.rowAt palette y ∧
    ∀ changed, m.rowGenerations[y]? = some changed → m'.rowGenerations[y]? = some changed

def MarkedRow (m' : Device) (y : ℕ) : Prop := m'.rowGenerations[y]? = some m'.contentGeneration

def Tracked (m m' : Device) : Prop :=
  (m'.contentGeneration = m.contentGeneration ∧ ∀ y < m'.display.height, KeptRow palette m m' y) ∨
  m'.contentGeneration = (m.contentGeneration + 1) % 2 ^ 64 ∧
    ∀ y < m'.display.height, MarkedRow m' y ∨ KeptRow palette m m' y

variable {palette}

/-- Only the generations and the screen matter: the rest of the device may have changed. -/
theorem Tracked.refl (m : Device) : Tracked palette m m :=
  Or.inl ⟨rfl, fun _ _ => ⟨rfl, fun _ h => h⟩⟩

theorem resize_length (rows : List ℕ) (height : ℕ) : (Device.resize rows height).length = height := by
  unfold Device.resize
  rw [List.length_append, List.length_take, List.length_replicate]
  omega

theorem resize_getElem? {rows : List ℕ} {height y changed : ℕ} (hy : y < height)
    (h : rows[y]? = some changed) : (Device.resize rows height)[y]? = some changed := by
  obtain ⟨hlt, -⟩ := List.getElem?_eq_some_iff.mp h
  unfold Device.resize
  rw [List.getElem?_append_left (by rw [List.length_take]; omega), List.getElem?_take_of_lt hy, h]

section Fill

variable {rows : List ℕ} {height start stop value y : ℕ} (hlen : rows.length = height)
  (hstop : stop ≤ height)
include hlen hstop

theorem filled_inside (hfrom : start ≤ y) (hto : y < stop) :
    (rows.take start ++ List.replicate (stop - start) value ++ rows.drop stop)[y]? = some value := by
  rw [List.getElem?_append_left (by simp; omega), List.getElem?_append_right (by simp; omega),
    List.getElem?_replicate_of_lt (by simp; omega)]

theorem filled_outside (hle : start ≤ stop) (hout : ¬ (start ≤ y ∧ y < stop)) :
    (rows.take start ++ List.replicate (stop - start) value ++ rows.drop stop)[y]? = rows[y]? := by
  by_cases hbefore : y < start
  · rw [List.getElem?_append_left (by simp; omega), List.getElem?_append_left (by simp; omega),
      List.getElem?_take_of_lt hbefore]
  · have hskip : (rows.take start ++ List.replicate (stop - start) value).length = stop := by
      simp
      omega
    rw [List.getElem?_append_right (by omega), hskip, List.getElem?_drop]
    congr 1
    omega

end Fill

/-- Full damage accounts for anything. -/
theorem markFullDamage_tracked {m m' : Device} (hgen : m'.contentGeneration = m.contentGeneration) :
    Tracked palette m m'.markFullDamage := by
  unfold Device.markFullDamage
  dsimp only
  split_ifs with hheight
  · refine Or.inr ⟨congrArg (fun g => (g + 1) % 2 ^ 64) hgen, fun y hy => Or.inl ?_⟩
    show ((Device.resize m'.rowGenerations m'.display.height).map _)[y]? = _
    rw [List.getElem?_map, List.getElem?_eq_getElem (by rw [resize_length]; exact hy)]
    rfl
  · refine Or.inl ⟨hgen, fun y hy => ?_⟩
    exact absurd (Nat.lt_of_le_of_lt (Nat.zero_le y) hy) hheight

/-- Marking rows accounts for a change that shows in no other row. -/
theorem markRows_tracked {m m' : Device} {first last : ℕ}
    (hgen : m'.contentGeneration = m.contentGeneration)
    (hrows : m'.rowGenerations = m.rowGenerations)
    (hkept : ∀ y < m'.display.height, ¬ (first ≤ y ∧ y < last) →
      m'.rowAt palette y = m.rowAt palette y) :
    Tracked palette m (m'.markRows first last) := by
  unfold Device.markRows
  dsimp only
  split_ifs with hempty
  · refine Or.inl ⟨hgen, fun y hy => ⟨hkept y hy (by omega), fun changed h => ?_⟩⟩
    rw [hrows]
    exact h
  · refine Or.inr ⟨congrArg (fun g => (g + 1) % 2 ^ 64) hgen, fun y hy => ?_⟩
    have hy' : y < m'.display.height := hy
    by_cases hin : first ≤ y ∧ y < last
    · exact Or.inl (filled_inside (resize_length _ _) (by omega) (by omega) (by omega))
    · refine Or.inr ⟨hkept y hy' hin, fun changed h => ?_⟩
      rw [← hrows] at h
      exact (filled_outside (resize_length _ _) (by omega) (by omega) (by omega)).trans
        (resize_getElem? hy' h)

section Writes

variable {m : Device} (hd : m.display.Bounded)
include hd

/-- A row that shows no byte of a range is kept by a change inside it. -/
theorem rowAt_within {lo hi : ℕ} {vram : FrameStore} (hwithin : Within lo hi m.vram vram) {y : ℕ}
    (hhidden : ∀ a, lo ≤ a → a < hi → ¬ m.screen.Shown y a) :
    ({ m with vram := vram } : Device).rowAt palette y = m.rowAt palette y := by
  unfold Device.rowAt
  dsimp only
  split_ifs with hy
  · have hsame : SameShown m.screen vram y := by
      refine ⟨hwithin.len, fun a hshown => hwithin.kept a fun hin => ?_⟩
      exact hhidden a hin.1 hin.2 hshown
    exact congrArg some (hsame.scanoutRow hd hy palette)
  · rfl

omit hd in
/-- Without overlay, and with the cursor's bitmap elsewhere, only the surface shows a write. -/
theorem shown_surface {offset bytes y a : ℕ} (hoverlay : ¬ m.overlayEnabled = true)
    (hcursor : ¬ (m.cursorEnabled = true ∧
      offset < saturatingAdd64 (m.cursorReg regCursorAddr).toNat 1024 ∧
      (m.cursorReg regCursorAddr).toNat < offset + bytes))
    (hlo : offset ≤ a) (hhi : a < offset + bytes) (hshown : m.screen.Shown y a) :
    m.display.start + y * m.display.pitch ≤ a ∧ a < m.display.start + (y + 1) * m.display.pitch := by
  rcases hshown with hon | hrow | ⟨hon, hfrom, hto⟩
  · exact absurd hon hoverlay
  · exact hrow
  · have haddr := (m.cursorReg regCursorAddr).isLt
    have hfrom' : (m.cursorReg regCursorAddr).toNat ≤ a := hfrom
    have hto' : a < (m.cursorReg regCursorAddr).toNat + 1024 := hto
    rw [saturatingAdd64_eq (by omega)] at hcursor
    exact absurd ⟨hon, by omega, by omega⟩ hcursor

/-- A noted write accounts for a change inside it. -/
theorem noteVramWrite_tracked {offset bytes : ℕ} {vram : FrameStore}
    (hwithin : Within offset (offset + bytes) m.vram vram) (hfit : offset + bytes < 2 ^ 64) :
    Tracked palette m (({ m with vram := vram } : Device).noteVramWrite offset bytes) := by
  have hstart := hd.start_lt
  have harea : m.display.pitch * m.display.height ≤ 4096 * 768 :=
    Nat.mul_le_mul hd.pitch_le hd.height_le
  have hvisible : saturatingMul64 m.display.pitch m.display.height =
      m.display.pitch * m.display.height := saturatingMul64_eq (by omega)
  have hend : saturatingAdd64 m.display.start (m.display.pitch * m.display.height) =
      m.display.start + m.display.pitch * m.display.height := saturatingAdd64_eq (by omega)
  have hrows : ∀ y < m.display.height,
      (y + 1) * m.display.pitch ≤ m.display.pitch * m.display.height := by
    intro y hy
    rw [Nat.mul_comm]
    exact Nat.mul_le_mul_left _ hy
  have hquiet : (∀ y < m.display.height, ∀ a, offset ≤ a → a < offset + bytes →
      ¬ m.screen.Shown y a) → Tracked palette m ({ m with vram := vram } : Device) := by
    intro hhidden
    exact Or.inl ⟨rfl, fun y hy => ⟨rowAt_within hd hwithin (hhidden y hy), fun _ h => h⟩⟩
  unfold Device.noteVramWrite
  rw [checkedAdd64, if_pos hfit]
  dsimp only
  rw [hvisible, hend]
  split_ifs with hzero hoverlay hcursor hflat hbelow
  · exact hquiet fun y _ a hlo hhi => by omega
  · exact markFullDamage_tracked rfl
  · exact markFullDamage_tracked rfl
  · refine hquiet fun y hy a hlo hhi hshown => ?_
    obtain ⟨hfrom, hto⟩ := @shown_surface m _ _ _ _ hoverlay hcursor hlo hhi hshown
    have hpitch : m.display.pitch = 0 := by omega
    rw [hpitch, Nat.mul_zero] at hfrom hto
    omega
  · refine hquiet fun y hy a hlo hhi hshown => ?_
    obtain ⟨hfrom, hto⟩ := @shown_surface m _ _ _ _ hoverlay hcursor hlo hhi hshown
    have hrow := hrows y hy
    omega
  · refine markRows_tracked rfl rfl fun y (hy : y < m.display.height) hunmarked => ?_
    refine rowAt_within hd hwithin fun a hlo hhi hshown => ?_
    obtain ⟨hfrom, hto⟩ := @shown_surface m _ _ _ _ hoverlay hcursor hlo hhi hshown
    have hinside := hrows y hy
    -- the byte's own row lies between the first and the last
    have hrow : (a - m.display.start) / m.display.pitch = y := by
      rw [Nat.succ_mul] at hto
      apply Nat.div_eq_of_lt_le
      · omega
      · rw [Nat.succ_mul]
        omega
    have hfirst : (max offset m.display.start - m.display.start) / m.display.pitch ≤ y := by
      rw [← hrow]
      exact Nat.div_le_div_right (by omega)
    have hlast : y ≤ (min (offset + bytes) (m.display.start + m.display.pitch * m.display.height) -
        1 - m.display.start) / m.display.pitch := by
      rw [← hrow]
      exact Nat.div_le_div_right (by omega)
    have hlastLe := Nat.div_le_self (min (offset + bytes)
      (m.display.start + m.display.pitch * m.display.height) - 1 - m.display.start) m.display.pitch
    rw [saturatingAdd64_eq (by omega)] at hunmarked
    omega

end Writes

end IzarraVM.Margo
