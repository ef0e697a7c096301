import IzarraVM.MargoExtents

/-! The line law of the 2D engine: within half a pixel, to the second end point. -/
namespace IzarraVM.Margo.LineParams

variable (p : LineParams)

def start : LinePoint := ⟨p.x0, p.y0, p.course.dx + p.course.dy⟩

def point (k : ℕ) : LinePoint := p.course.next^[k] p.start

def length : ℕ := max ((p.x1 : ℤ) - p.x0).natAbs ((p.y1 : ℤ) - p.y0).natAbs

def deviation (s : LinePoint) : ℤ :=
  ((p.x1 : ℤ) - p.x0) * (s.y - p.y0) - ((p.y1 : ℤ) - p.y0) * (s.x - p.x0)

def Toward (a b c : ℤ) : Prop := (a ≤ b ∧ b ≤ a + 1 ∧ b ≤ c) ∨ (b ≤ a ∧ a ≤ b + 1 ∧ c ≤ b)

structure LineLaw : Prop where
  drawn : ∀ fuel out, p.length < fuel → lineLoop p fuel p.start out =
    ((List.range (p.length + 1)).map p.point).foldl (fun out s => linePixel p out s.x s.y) out
  enough : p.length < 65536
  first : (p.point 0).x = p.x0 ∧ (p.point 0).y = p.y0
  last : ∀ k ≤ p.length, ((p.point k).x = p.x1 ∧ (p.point k).y = p.y1) ↔ k = p.length
  columns : ∀ k < p.length, Toward (p.point k).x (p.point (k + 1)).x p.x1
  rows : ∀ k < p.length, Toward (p.point k).y (p.point (k + 1)).y p.y1
  near : ∀ k ≤ p.length, 2 * |p.deviation (p.point k)| ≤ p.length
  noOverflow : ∀ k ≤ p.length, |2 * (p.point k).err| < 2 ^ 63

def Passed (k : ℕ) (i j : ℤ) (s : LinePoint) : Prop :=
  Bresenham.Walk p.course.dx (-p.course.dy) i j s.err ∧
    s.x = p.x0 + p.course.sx * i ∧ s.y = p.y0 + p.course.sy * j ∧
    (-p.course.dy ≤ p.course.dx → i = k ∧ Bresenham.Near p.course.dx (-p.course.dy) i j) ∧
    (p.course.dx ≤ -p.course.dy → j = k ∧ Bresenham.Near (-p.course.dy) p.course.dx j i)

variable {p} {k : ℕ} {i j : ℤ} {s : LinePoint}

theorem sx_cases (p : LineParams) : p.course.sx = 1 ∨ p.course.sx = -1 := ite_eq_or_eq _ _ _

theorem sy_cases (p : LineParams) : p.course.sy = 1 ∨ p.course.sy = -1 := ite_eq_or_eq _ _ _

theorem x1_eq (p : LineParams) : (p.x1 : ℤ) = p.x0 + p.course.sx * p.course.dx := by
  unfold course
  dsimp only
  split_ifs <;> omega

theorem y1_eq (p : LineParams) : (p.y1 : ℤ) = p.y0 + p.course.sy * -p.course.dy := by
  unfold course
  dsimp only
  split_ifs <;> omega

theorem length_eq (p : LineParams) : (p.length : ℤ) = max p.course.dx (-p.course.dy) := by
  unfold length course
  dsimp only
  omega

theorem passed_start (p : LineParams) : p.Passed 0 0 0 p.start := by
  have hwalk := walk_start p
  refine ⟨hwalk, ?_, ?_, fun _ => ⟨rfl, ?_⟩, fun _ => ⟨rfl, ?_⟩⟩
  · rw [Int.mul_zero, Int.add_zero]
    rfl
  · rw [Int.mul_zero, Int.add_zero]
    rfl
  · have hdx := hwalk.i_le
    constructor <;> omega
  · have hdy := hwalk.j_le
    constructor <;> omega

theorem Passed.next (h : p.Passed k i j s) (hopen : ¬ (s.x = p.x1 ∧ s.y = p.y1)) :
    p.Passed (k + 1) (if p.course.dy ≤ 2 * s.err then i + 1 else i)
      (if 2 * s.err ≤ p.course.dx then j + 1 else j) (p.course.next s) := by
  obtain ⟨hwalk, hx, hy, hwide, htall⟩ := h
  obtain ⟨hnext, hx', hy'⟩ := walk_next hwalk hx hy hopen
  refine ⟨hnext, hx', hy', fun hle => ?_, fun hle => ?_⟩
  · obtain ⟨rfl, hnear⟩ := hwide hle
    have hstep := (hwalk.wide hle).1
    rw [if_pos (by omega)]
    exact ⟨rfl, hwalk.near_next hle hnear⟩
  · obtain ⟨rfl, hnear⟩ := htall hle
    have hstep := (hwalk.tall hle).2
    have hnear' := hwalk.swap.near_next hle hnear
    have hflip : 2 * -s.err ≤ -p.course.dy ↔ p.course.dy ≤ 2 * s.err := by omega
    simp only [hflip] at hnear'
    rw [if_pos (show 2 * s.err ≤ p.course.dx from hstep)]
    exact ⟨rfl, hnear'⟩

/-- The second end is reached with the last step of the longer side and not before. -/
theorem Passed.ends_iff (h : p.Passed k i j s) :
    (s.x = p.x1 ∧ s.y = p.y1) ↔ k = p.length := by
  obtain ⟨hwalk, hx, hy, hwide, htall⟩ := h
  have hlength := p.length_eq
  have hends : (s.x = p.x1 ∧ s.y = p.y1) ↔ i = p.course.dx ∧ j = -p.course.dy := by
    rw [hx, hy, p.x1_eq, p.y1_eq]
    rcases p.sx_cases with hsx | hsx <;> rcases p.sy_cases with hsy | hsy <;> rw [hsx, hsy] <;> omega
  rw [hends]
  rcases Int.le_total (-p.course.dy) p.course.dx with hle | hle
  · obtain ⟨hi, -⟩ := hwide hle
    rw [max_eq_left hle] at hlength
    refine ⟨fun hend => by omega, fun hk => ?_⟩
    by_contra hopen
    have hleft := hwalk.column_left hle hopen
    omega
  · obtain ⟨hj, -⟩ := htall hle
    rw [max_eq_right hle] at hlength
    refine ⟨fun hend => by omega, fun hk => ?_⟩
    by_contra hopen
    have hleft := hwalk.swap.column_left hle fun hend => hopen hend.symm
    omega

theorem point_succ (p : LineParams) (k : ℕ) : p.point (k + 1) = p.course.next (p.point k) :=
  Function.iterate_succ_apply' _ _ _

theorem exists_passed (hk : k ≤ p.length) : ∃ i j, p.Passed k i j (p.point k) := by
  induction k with
  | zero => exact ⟨0, 0, p.passed_start⟩
  | succ k ih =>
    obtain ⟨i, j, h⟩ := ih (by omega)
    rw [point_succ]
    exact ⟨_, _, h.next fun hend => by have := h.ends_iff.mp hend; omega⟩

theorem point_ends_iff (hk : k ≤ p.length) :
    ((p.point k).x = p.x1 ∧ (p.point k).y = p.y1) ↔ k = p.length := by
  obtain ⟨i, j, h⟩ := exists_passed hk
  exact h.ends_iff

/-- The loop from pass `k` on plots the points that are left. -/
theorem lineLoop_points (n : ℕ) : ∀ {k fuel : ℕ} (out : FrameStore × ℕ), k + n = p.length →
    n < fuel → lineLoop p fuel (p.point k) out =
      ((List.range' k (n + 1)).map p.point).foldl (fun out s => linePixel p out s.x s.y) out := by
  induction n with
  | zero =>
    intro k fuel out hk hfuel
    obtain ⟨fuel, rfl⟩ := Nat.exists_eq_add_one.mpr hfuel
    rw [Nat.add_zero] at hk
    rw [lineLoop, if_pos ((point_ends_iff hk.le).mpr hk)]
    rfl
  | succ n ih =>
    intro k fuel out hk hfuel
    obtain ⟨fuel, rfl⟩ := Nat.exists_eq_add_one.mpr (Nat.zero_lt_of_lt hfuel)
    have hopen : ¬ ((p.point k).x = p.x1 ∧ (p.point k).y = p.y1) := by
      rw [point_ends_iff (by omega)]
      omega
    rw [lineLoop, if_neg hopen, ← point_succ, ih _ (by omega) (by omega)]
    rfl

theorem toward_of_sign {sign first i i' last : ℤ} (hsign : sign = 1 ∨ sign = -1)
    (hi : i' = i ∨ i' = i + 1) (hle : i' ≤ last) :
    Toward (first + sign * i) (first + sign * i') (first + sign * last) := by
  unfold Toward
  rcases hsign with rfl | rfl <;> omega

theorem step_toward (hk : k < p.length) :
    Toward (p.point k).x (p.point (k + 1)).x p.x1 ∧
      Toward (p.point k).y (p.point (k + 1)).y p.y1 := by
  obtain ⟨i, j, h⟩ := exists_passed hk.le
  obtain ⟨hwalk, hx, hy, -⟩ := h.next fun hend => hk.ne (h.ends_iff.mp hend)
  rw [point_succ, hx, hy, h.2.1, h.2.2.1, p.x1_eq, p.y1_eq]
  exact ⟨toward_of_sign p.sx_cases (ite_eq_or_eq _ _ _).symm hwalk.i_le,
    toward_of_sign p.sy_cases (ite_eq_or_eq _ _ _).symm hwalk.j_le⟩

theorem Passed.abs_deviation (h : p.Passed k i j s) :
    |p.deviation s| = |p.course.dx * j - -p.course.dy * i| := by
  have hsigned : p.deviation s =
      p.course.sx * p.course.sy * (p.course.dx * j - -p.course.dy * i) := by
    unfold deviation
    rw [h.2.1, h.2.2.1, p.x1_eq, p.y1_eq]
    ring
  rw [hsigned, abs_mul, abs_mul]
  rcases p.sx_cases with hsx | hsx <;> rcases p.sy_cases with hsy | hsy <;> rw [hsx, hsy] <;> simp

theorem deviation_le (hk : k ≤ p.length) : 2 * |p.deviation (p.point k)| ≤ p.length := by
  obtain ⟨i, j, h⟩ := exists_passed hk
  rw [h.abs_deviation, p.length_eq]
  obtain ⟨-, -, -, hwide, htall⟩ := h
  rcases Int.le_total (-p.course.dy) p.course.dx with hle | hle
  · obtain ⟨-, hlow, hhigh⟩ := hwide hle
    rw [max_eq_left hle]
    rcases abs_cases (p.course.dx * j - -p.course.dy * i) with ⟨habs, -⟩ | ⟨habs, -⟩ <;> omega
  · obtain ⟨-, hlow, hhigh⟩ := htall hle
    rw [max_eq_right hle]
    rcases abs_cases (p.course.dx * j - -p.course.dy * i) with ⟨habs, -⟩ | ⟨habs, -⟩ <;> omega

/-- The error term stays far from the bounds of its 64 bits. -/
theorem abs_err_lt (hlength : p.length < 65536) (hk : k ≤ p.length) :
    |2 * (p.point k).err| < 2 ^ 63 := by
  obtain ⟨i, j, hwalk, -⟩ := exists_passed hk
  have hmax := p.length_eq
  have hdx := hwalk.i_nonneg.trans hwalk.i_le
  have hdy := hwalk.j_nonneg.trans hwalk.j_le
  rw [abs_lt]
  rcases Int.le_total (-p.course.dy) p.course.dx with hle | hle
  · have hbounds := hwalk.wide hle
    omega
  · have hbounds := hwalk.tall hle
    omega

/-- Every LINE command draws by the law, and draws all of its points. -/
theorem line_command_law (m : Device) :
    m.lineParams.LineLaw ∧ (validDepth m.lineParams.depth → line m.vram m.lineParams =
      ((List.range (m.lineParams.length + 1)).map m.lineParams.point).foldl
        (fun out s => linePixel m.lineParams out s.x s.y) (m.vram, 0)) := by
  have hx0 : m.lineParams.x0 < 2 ^ 16 := low16_lt _
  have hy0 : m.lineParams.y0 < 2 ^ 16 := high16_lt _
  have hx1 : m.lineParams.x1 < 2 ^ 16 := low16_lt _
  have hy1 : m.lineParams.y1 < 2 ^ 16 := high16_lt _
  have hlength : m.lineParams.length < 65536 := by
    unfold length
    omega
  have hdrawn (fuel : ℕ) (out : FrameStore × ℕ) (hfuel : m.lineParams.length < fuel) :
      lineLoop m.lineParams fuel m.lineParams.start out =
        ((List.range (m.lineParams.length + 1)).map m.lineParams.point).foldl
          (fun out s => linePixel m.lineParams out s.x s.y) out := by
    rw [List.range_eq_range']
    exact lineLoop_points _ out (Nat.zero_add _) hfuel
  refine ⟨⟨hdrawn, hlength, ⟨rfl, rfl⟩, fun k => point_ends_iff, fun k hk => (step_toward hk).1,
    fun k hk => (step_toward hk).2, fun k => deviation_le, fun k => abs_err_lt hlength⟩, ?_⟩
  intro hdepth
  rw [line, if_pos hdepth]
  exact hdrawn 65536 _ hlength

end IzarraVM.Margo.LineParams
