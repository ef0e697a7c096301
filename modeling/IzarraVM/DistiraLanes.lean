import Mathlib

/-! The lanes of the 3D engine's rasteriser (`distira.rs`, `distira/raster_queue.rs`). -/
namespace IzarraVM.Distira

section Rows

variable {κ α ι : Type*} [DecidableEq κ] [DecidableEq ι]

def applyRows (ops : List (κ × (α → α))) (fb : κ → α) : κ → α :=
  ops.foldl (fun fb op => Function.update fb op.1 (op.2 (fb op.1))) fb

/-- A row is changed by its own operations alone. -/
theorem applyRows_row (ops : List (κ × (α → α))) (fb : κ → α) (row : κ) : applyRows ops fb row =
    (ops.filter (·.1 = row)).foldl (fun content op => op.2 content) (fb row) := by
  induction ops generalizing fb with
  | nil => rfl
  | cons op ops ih =>
    refine (ih _).trans ?_
    by_cases h : op.1 = row
    · subst h
      simp
    · simp [h, Function.update_of_ne (Ne.symm h)]

def Interleaves (work : ι → List (κ × (α → α))) (steps : List (ι × κ × (α → α))) : Prop :=
  ∀ lane, (steps.filter (·.1 = lane)).map Prod.snd = work lane

/-- When the owner of each row is the only lane that works on it, the interleaving does not matter. -/
theorem applyRows_interleaves {work : ι → List (κ × (α → α))} {steps : List (ι × κ × (α → α))}
    (h : Interleaves work steps) (owner : κ → ι) (howner : ∀ lane, ∀ op ∈ work lane, owner op.1 = lane)
    {serial : List (κ × (α → α))}
    (hserial : ∀ row, serial.filter (·.1 = row) = (work (owner row)).filter (·.1 = row)) (fb : κ → α) :
    applyRows (steps.map Prod.snd) fb = applyRows serial fb := by
  funext row
  rw [applyRows_row, applyRows_row, hserial, ← h, List.filter_map, List.filter_map, List.filter_filter]
  congr 2
  refine List.filter_congr fun step hstep => ?_
  -- A step on this row was made by the row's owner.
  have hlane : owner step.2.1 = step.1 := howner _ _ (h step.1 ▸
    List.mem_map_of_mem (List.mem_filter.2 ⟨hstep, decide_eq_true rfl⟩))
  by_cases hrow : step.2.1 = row
  · simp [hrow, ← hlane]
  · simp [hrow]

end Rows

structure QueuedTriangle (τ : Type*) where
  minY : ℕ
  maxY : ℕ
  height : ℕ
  yOrigin : Bool
  params : τ
  maxY_le : maxY ≤ height

/-- The rows of `draw_triangle_inner`: from the lowest to the highest whole row of the vertices, within
the display and, where the guest asks for it, within its clip. -/
def QueuedTriangle.setup {τ : Type*} (lowest highest : ℤ) (height : ℕ) (clip : Option (ℕ × ℕ))
    (yOrigin : Bool) (params : τ) : QueuedTriangle τ where
  minY := (clip.map fun c => max lowest.toNat c.1).getD lowest.toNat
  maxY := (clip.map fun c => min (min highest height).toNat c.2).getD (min highest height).toNat
  height := height
  yOrigin := yOrigin
  params := params
  maxY_le := by
    cases clip with
    | none => exact Int.toNat_le.mpr (min_le_right _ _)
    | some c => exact (min_le_left _ _).trans (Int.toNat_le.mpr (min_le_right _ _))

structure QueuedTextureWrite where
  tmu : Fin 2
  offset : ℕ
  bytes : List UInt8

inductive QueuedCommand (τ : Type*) where
  | triangle (job : QueuedTriangle τ)
  | textureWrite (write : QueuedTextureWrite)

abbrev Texture := Fin 2 → ℕ → UInt8

def texSize : ℕ := 4 * 1024 * 1024

def QueuedTextureWrite.apply (write : QueuedTextureWrite) (texture : Texture) : Texture :=
  write.bytes.zipIdx.foldl (fun texture byte => Function.update texture write.tmu
    (Function.update (texture write.tmu) ((write.offset + byte.2) &&& (texSize - 1)) byte.1)) texture

variable {τ α : Type*}

namespace QueuedTriangle

variable (job : QueuedTriangle τ)

def rows : List ℕ :=
  List.range' job.minY (job.maxY - job.minY)

def drawY (y : ℕ) : ℕ :=
  if job.yOrigin then job.height - 1 - y else y

def residue (lane lanes : ℕ) : ℕ :=
  if job.yOrigin then ((job.height - 1) % lanes + lanes - lane) % lanes else lane

def firstRow (lane lanes : ℕ) : ℕ :=
  job.minY + (lanes + job.residue lane lanes - job.minY % lanes) % lanes

def bandRows (lanes : ℕ) : ℕ → ℕ → List ℕ
  | 0, _ => []
  | fuel + 1, y => if y < job.maxY then y :: bandRows lanes fuel (y + lanes) else []

def laneRows (lane lanes : ℕ) : List ℕ :=
  job.bandRows lanes job.maxY (job.firstRow lane lanes)

variable {job} {lane lanes : ℕ}

theorem residue_lt (h : lane < lanes) : job.residue lane lanes < lanes := by
  unfold residue
  split
  · exact Nat.mod_lt _ (by omega)
  · exact h

/-- Inverting the flip on the residue is exact on the triangle's rows. -/
theorem drawY_mod (h : lane < lanes) {y : ℕ} (hy : y < job.maxY) :
    job.drawY y % lanes = lane ↔ y % lanes = job.residue lane lanes := by
  unfold drawY residue
  split
  · have hle := job.maxY_le
    obtain ⟨top, htop⟩ : ∃ top, job.height - 1 = top + y := ⟨job.height - 1 - y, by omega⟩
    rw [htop, Nat.add_sub_cancel]
    have hmod : (top + y) % lanes + lanes ≡ top + y [MOD lanes] := by simp [Nat.ModEq]
    have hback : (top + y) % lanes + lanes - lane + lane ≡ top + y [MOD lanes] := by
      rwa [Nat.sub_add_cancel (by omega)]
    constructor
    · intro hlane
      have htl : top ≡ lane [MOD lanes] := by rw [Nat.ModEq, hlane, Nat.mod_eq_of_lt h]
      exact (Nat.ModEq.add_right_cancel htl.symm (hback.trans (by rw [Nat.add_comm]))).symm
    · intro hy'
      have hyl : y ≡ (top + y) % lanes + lanes - lane [MOD lanes] := hy'
      have := Nat.ModEq.add_left_cancel hyl.symm (hback.trans (by rw [Nat.add_comm]))
      rw [← this, Nat.mod_eq_of_lt h]
  · rfl

theorem eq_of_add_mod_eq {y i k : ℕ} (hi : i < lanes) (hk : k < lanes)
    (h : (y + i) % lanes = (y + k) % lanes) : i = k :=
  Nat.ModEq.eq_of_lt_of_lt (Nat.ModEq.add_left_cancel' y h) hi hk

/-- Rows that fail the test at the front of a span can be skipped. -/
theorem filter_range_skip (p : ℕ → Bool) (k : ℕ) : ∀ y n, (∀ i < k, p (y + i) = false) →
    (List.range' y n).filter p = (List.range' (y + k) (n - k)).filter p := by
  induction k with
  | zero => intro y n _; rfl
  | succ k ih =>
    intro y n h
    cases n with
    | zero => simp
    | succ n =>
      have hy : ¬p y = true := by simp [show p y = false from h 0 k.succ_pos]
      have hrest : ∀ i < k, p (y + 1 + i) = false := fun i hi => by
        rw [Nat.add_assoc, Nat.add_comm 1]
        exact h (i + 1) (by omega)
      rw [List.range'_succ, List.filter_cons_of_neg hy, ih _ _ hrest, Nat.add_assoc, Nat.add_comm 1,
        Nat.add_sub_add_right]

/-- A row of the loop's residue is followed by `lanes - 1` rows of other residues. -/
theorem bandRows_eq (hlanes : 0 < lanes) (fuel y : ℕ) (hfuel : job.maxY ≤ fuel + y) :
    job.bandRows lanes fuel y = (List.range' y (job.maxY - y)).filter (· % lanes = y % lanes) := by
  induction fuel generalizing y with
  | zero => simp [bandRows, show job.maxY - y = 0 by omega]
  | succ fuel ih =>
    unfold bandRows
    split
    case isTrue hlt =>
      have hskip : ∀ i < lanes - 1, decide ((y + 1 + i) % lanes = y % lanes) = false := by
        intro i hi
        refine decide_eq_false fun heq => ?_
        rw [Nat.add_assoc] at heq
        have := eq_of_add_mod_eq (k := 0) (by omega) hlanes heq
        omega
      rw [ih _ (by omega), Nat.add_mod_right, show job.maxY - y = job.maxY - (y + 1) + 1 by omega,
        List.range'_succ, List.filter_cons, if_pos (decide_eq_true rfl), filter_range_skip _ _ (y + 1) _ hskip,
        show y + 1 + (lanes - 1) = y + lanes by omega,
        show job.maxY - (y + 1) - (lanes - 1) = job.maxY - (y + lanes) by omega]
    case isFalse hge => simp [show job.maxY - y = 0 by omega]

/-- The rows a lane draws are the triangle's rows that land on its framebuffer rows. -/
theorem laneRows_eq (h : lane < lanes) :
    job.laneRows lane lanes = job.rows.filter (job.drawY · % lanes = lane) := by
  have hlanes : 0 < lanes := by omega
  have hres := job.residue_lt h
  have hmin := Nat.mod_lt job.minY hlanes
  let k := (lanes + job.residue lane lanes - job.minY % lanes) % lanes
  have hfirst : (job.minY + k) % lanes = job.residue lane lanes := by
    rw [Nat.add_mod_mod, ← Nat.mod_add_mod,
      show job.minY % lanes + (lanes + job.residue lane lanes - job.minY % lanes)
        = job.residue lane lanes + lanes by omega, Nat.add_mod_right, Nat.mod_eq_of_lt hres]
  have hskip : ∀ i < k, decide ((job.minY + i) % lanes = job.residue lane lanes) = false := by
    intro i hi
    have hk : k < lanes := Nat.mod_lt _ hlanes
    refine decide_eq_false fun heq => ?_
    have := eq_of_add_mod_eq (by omega) hk (heq.trans hfirst.symm)
    omega
  calc job.laneRows lane lanes
      = (List.range' (job.minY + k) (job.maxY - (job.minY + k))).filter
          (· % lanes = job.residue lane lanes) := by
        rw [← hfirst]
        exact bandRows_eq hlanes _ _ (by omega)
    _ = job.rows.filter (· % lanes = job.residue lane lanes) := by
        rw [rows, filter_range_skip _ k job.minY _ hskip, Nat.sub_sub]
    _ = _ := List.filter_congr fun y hy => by
        have := List.mem_range'_1.1 hy
        simp only [drawY_mod h (show y < job.maxY by omega)]

/-- The lanes' rows partition the triangle's. -/
theorem mem_rows_iff (hlanes : 0 < lanes) (y : ℕ) :
    y ∈ job.rows ↔ ∃! lane, lane < lanes ∧ y ∈ job.laneRows lane lanes := by
  constructor
  · intro hy
    refine ⟨job.drawY y % lanes, ⟨Nat.mod_lt _ hlanes, ?_⟩, ?_⟩
    · rw [laneRows_eq (Nat.mod_lt _ hlanes)]
      exact List.mem_filter.2 ⟨hy, decide_eq_true rfl⟩
    · rintro lane ⟨hlane, hmem⟩
      rw [laneRows_eq hlane] at hmem
      exact (of_decide_eq_true (List.mem_filter.1 hmem).2).symm
  · rintro ⟨lane, ⟨hlane, hmem⟩, -⟩
    rw [laneRows_eq hlane] at hmem
    exact (List.mem_filter.1 hmem).1

end QueuedTriangle

variable (kernel : τ → Texture → ℕ → α → α)

def rowOps (job : QueuedTriangle τ) (texture : Texture) (rows : List ℕ) : List (ℕ × (α → α)) :=
  rows.map fun y => (job.drawY y, kernel job.params texture y)

def renderBand (jobs : List (QueuedTriangle τ)) (texture : Texture) (lane lanes : ℕ) : List (ℕ × (α → α)) :=
  jobs.flatMap fun job => rowOps kernel job texture (job.laneRows lane lanes)

def RasterRun (jobs : List (QueuedTriangle τ)) (texture : Texture) (lanes : ℕ) (fb fb' : ℕ → α) : Prop :=
  ∃ steps, Interleaves (fun lane : Fin lanes => renderBand kernel jobs texture lane lanes) steps ∧
    fb' = applyRows (steps.map Prod.snd) fb

/-- `run_raster_batch` on the commands that are left, with `jobs` the run so far. The lane count of each
run is the batch's choice. -/
inductive RasterBatch : List (QueuedTriangle τ) → List (QueuedCommand τ) → Texture → (ℕ → α) →
    Texture → (ℕ → α) → Prop
  | done {jobs texture lanes fb fb'} (hlanes : 0 < lanes) (hrun : RasterRun kernel jobs texture lanes fb fb') :
      RasterBatch jobs [] texture fb texture fb'
  | triangle {jobs job rest texture fb texture' fb'}
      (hrest : RasterBatch (jobs ++ [job]) rest texture fb texture' fb') :
      RasterBatch jobs (.triangle job :: rest) texture fb texture' fb'
  | textureWrite {jobs write rest texture lanes fb fb₁ texture' fb'} (hlanes : 0 < lanes)
      (hrun : RasterRun kernel jobs texture lanes fb fb₁)
      (hrest : RasterBatch [] rest (write.apply texture) fb₁ texture' fb') :
      RasterBatch jobs (.textureWrite write :: rest) texture fb texture' fb'

def serialBatch : List (QueuedCommand τ) → Texture × (ℕ → α) → Texture × (ℕ → α)
  | [], s => s
  | .triangle job :: rest, (texture, fb) =>
    serialBatch rest (texture, applyRows (rowOps kernel job texture job.rows) fb)
  | .textureWrite write :: rest, (texture, fb) => serialBatch rest (write.apply texture, fb)

variable {kernel} {jobs : List (QueuedTriangle τ)} {texture texture' : Texture} {lanes : ℕ} {fb fb' : ℕ → α}

/-- A batch has a run: a single lane does the whole of it. -/
theorem RasterBatch.exists_run (commands : List (QueuedCommand τ)) :
    ∃ texture' fb', RasterBatch kernel jobs commands texture fb texture' fb' := by
  have hrun (jobs : List (QueuedTriangle τ)) (texture : Texture) (fb : ℕ → α) :
      RasterRun kernel jobs texture 1 fb (applyRows (renderBand kernel jobs texture 0 1) fb) := by
    refine ⟨(renderBand kernel jobs texture 0 1).map (Prod.mk 0), fun lane => ?_, by simp⟩
    obtain rfl := Subsingleton.elim 0 lane
    rw [List.filter_eq_self.mpr fun step _ => decide_eq_true (Subsingleton.elim _ _), List.map_map]
    exact List.map_id _
  induction commands generalizing jobs texture fb with
  | nil => exact ⟨_, _, .done Nat.one_pos (hrun _ _ _)⟩
  | cons command rest ih =>
    cases command with
    | triangle job =>
      obtain ⟨texture', fb', hrest⟩ := ih
      exact ⟨_, _, .triangle hrest⟩
    | textureWrite write =>
      obtain ⟨texture', fb', hrest⟩ := ih
      exact ⟨_, _, .textureWrite Nat.one_pos (hrun _ _ _) hrest⟩

theorem renderBand_row {lane : ℕ} (h : lane < lanes) :
    ∀ op ∈ renderBand kernel jobs texture lane lanes, op.1 % lanes = lane := by
  intro op hop
  obtain ⟨job, -, hop⟩ := List.mem_flatMap.1 hop
  obtain ⟨y, hy, rfl⟩ := List.mem_map.1 hop
  rw [QueuedTriangle.laneRows_eq h] at hy
  exact of_decide_eq_true (List.mem_filter.1 hy).2

/-- A run is its triangles one after another. -/
theorem RasterRun.serial (hlanes : 0 < lanes) (h : RasterRun kernel jobs texture lanes fb fb') :
    fb' = applyRows (jobs.flatMap fun job => rowOps kernel job texture job.rows) fb := by
  obtain ⟨steps, hsteps, rfl⟩ := h
  refine applyRows_interleaves hsteps (fun row => ⟨row % lanes, Nat.mod_lt _ hlanes⟩)
    (fun lane op hop => Fin.ext (renderBand_row lane.2 op hop)) (fun row => ?_) fb
  simp only [renderBand, List.filter_flatMap, rowOps, List.filter_map,
    QueuedTriangle.laneRows_eq (Nat.mod_lt row hlanes), List.filter_filter]
  congr 1
  funext job
  congr 1
  refine List.filter_congr fun y _ => ?_
  by_cases hrow : job.drawY y = row <;> simp [hrow]

theorem RasterBatch.serial {commands : List (QueuedCommand τ)}
    (h : RasterBatch kernel jobs commands texture fb texture' fb') :
    (texture', fb') = serialBatch kernel commands
      (texture, applyRows (jobs.flatMap fun job => rowOps kernel job texture job.rows) fb) := by
  induction h with
  | done hlanes hrun => rw [serialBatch, hrun.serial hlanes]
  | triangle _ ih =>
    rw [ih, serialBatch]
    simp [applyRows]
  | textureWrite hlanes hrun _ ih =>
    rw [ih, serialBatch, hrun.serial hlanes]
    rfl

/-- Every batch, with every lane count and every interleaving of the lanes: the lanes' rows partition each
triangle's rows, no two lanes touch one framebuffer row, and the outcome is the serial one. -/
theorem raster_batch_law (kernel : τ → Texture → ℕ → α → α) :
    (∀ (job : QueuedTriangle τ) (lanes : ℕ), 0 < lanes → ∀ y,
      (y ∈ job.rows ↔ ∃! lane, lane < lanes ∧ y ∈ job.laneRows lane lanes)) ∧
    (∀ (jobs : List (QueuedTriangle τ)) (texture : Texture) (lanes : ℕ), ∀ lane < lanes, ∀ lane' < lanes,
      ∀ op ∈ renderBand kernel jobs texture lane lanes, ∀ op' ∈ renderBand kernel jobs texture lane' lanes,
      op.1 = op'.1 → lane = lane') ∧
    ∀ (commands : List (QueuedCommand τ)) (texture texture' : Texture) (fb fb' : ℕ → α),
      RasterBatch kernel [] commands texture fb texture' fb' →
        (texture', fb') = serialBatch kernel commands (texture, fb) := by
  refine ⟨fun job lanes hlanes y => QueuedTriangle.mem_rows_iff hlanes y, ?_, fun _ _ _ _ _ h => h.serial⟩
  intro jobs texture lanes lane hlane lane' hlane' op hop op' hop' hrow
  rw [← renderBand_row hlane op hop, hrow, renderBand_row hlane' op' hop']

end IzarraVM.Distira
