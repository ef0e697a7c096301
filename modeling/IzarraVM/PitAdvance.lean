import IzarraVM.Pit

/-! A counter over a span of clocks: the closed forms step as the counter itself does. -/
namespace IzarraVM.Timer.Counter

open ClockTrace

variable {c : Counter} {v n : ℕ} {o : Bool}

theorem effectiveReload_bounds (c : Counter) :
    1 ≤ c.effectiveReload.toNat ∧ c.effectiveReload.toNat ≤ 65536 := by
  unfold effectiveReload
  split
  · decide
  · rename_i hne
    have hlt := c.reload.toNat_lt
    have hpos : c.reload.toNat ≠ 0 := fun h => hne (UInt16.toNat_inj.mp h)
    rw [UInt16.toNat_toUInt32]
    omega

theorem toNat_ofNat (h : v < 2 ^ 32) : (UInt32.ofNat v).toNat = v := UInt32.toNat_ofNat_of_lt' h

theorem wrap32_lt (v n : ℕ) : wrap32 v n < 2 ^ 32 := Nat.mod_lt _ (by decide)

theorem wrap32_eq (h : n ≤ v) (hv : v < 2 ^ 32) : wrap32 v n = v - n := by
  unfold wrap32
  omega

theorem low_toNat (x : UInt32) : (x &&& 0xffff).toNat = x.toNat % 2 ^ 16 := by
  rw [UInt32.toNat_and]
  exact Nat.and_two_pow_sub_one_eq_mod _ 16

theorem ofNat_ne_zero (h : v < 2 ^ 32) (hne : v ≠ 0) : UInt32.ofNat v ≠ 0 := by
  intro heq
  have := congrArg UInt32.toNat heq
  rw [toNat_ofNat h, UInt32.toNat_zero] at this
  exact hne this

def showing (c : Counter) (v : ℕ) (o : Bool) : Counter := { c with count := UInt32.ofNat v, out := o }

theorem showing_self (c : Counter) : c.showing c.count.toNat c.out = c := by
  rw [showing, UInt32.ofNat_toNat]

theorem showing_reloaded (c : Counter) (o : Bool) :
    c.showing c.effectiveReload.toNat o = { c with count := c.effectiveReload, out := o } := by
  rw [showing, UInt32.ofNat_toNat]

@[simp] theorem showing_count (c : Counter) (v : ℕ) (o : Bool) :
    (c.showing v o).count = UInt32.ofNat v := rfl

@[simp] theorem showing_out (c : Counter) (v : ℕ) (o : Bool) : (c.showing v o).out = o := rfl

@[simp] theorem showing_dec (c : Counter) (v : ℕ) (o : Bool) : (c.showing v o).dec = c.dec := rfl

/-- The binary decrement. -/
theorem dec_toNat (hbcd : c.bcd = false) (value : UInt32) {k : ℕ} (hk : k < 2 ^ 32) :
    (c.dec value k).toNat = (value.toNat + 2 ^ 32 - k) % 2 ^ 32 := by
  rw [dec, hbcd, if_neg (by decide), UInt32.toNat_sub, toNat_ofNat hk]
  omega

theorem dec_of_le (hbcd : c.bcd = false) (hv : v < 2 ^ 32) {k : ℕ} (hk : k ≤ v) :
    c.dec (UInt32.ofNat v) k = UInt32.ofNat (v - k) := by
  apply UInt32.toNat_inj.mp
  rw [dec_toNat hbcd _ (by omega), toNat_ofNat hv, toNat_ofNat (by omega)]
  omega

theorem dec_wrap32 (hbcd : c.bcd = false) (hn : n + 1 < 2 ^ 32) :
    c.dec (UInt32.ofNat (wrap32 v n)) 1 = UInt32.ofNat (wrap32 v (n + 1)) := by
  apply UInt32.toNat_inj.mp
  rw [dec_toNat hbcd _ (by decide), toNat_ofNat (wrap32_lt v n), toNat_ofNat (wrap32_lt v (n + 1)),
    wrap32, wrap32]
  omega

/-- Before the first reload. -/
theorem advanceRate_before (hn : n < if 2 ≤ c.count.toNat then c.count.toNat else 1) :
    c.advanceRate n =
      (c.showing (c.count.toNat - n) (if c.count.toNat - n = 1 then false else c.out), 0) := by
  unfold advanceRate
  simp only
  rw [if_pos hn]
  rfl

/-- Some clocks after the first reload. -/
theorem advanceRate_after {r first : ℕ} (hr : c.effectiveReload.toNat = r)
    (hfirst : (if 2 ≤ c.count.toNat then c.count.toNat else 1) = first) :
    c.advanceRate (first + n) =
      (c.showing (r - n % r) (decide (n % r ≠ r - 1)),
        (if 2 ≤ c.count.toNat then true else !c.out).toNat + n / r) := by
  unfold advanceRate
  simp only [hr, hfirst]
  rw [if_neg (by omega), Nat.add_sub_cancel_left]
  rfl

def trim (v : ℕ) (o : Bool) : ℕ := if v % 2 = 1 then if o then 1 else 3 else 2

theorem squareStep_showing (hv : v < 2 ^ 32) : (c.showing v o).squareStep = trim v o := by
  have hodd : UInt32.ofNat v &&& 1 = 1 ↔ v % 2 = 1 := by
    rw [← UInt32.toNat_inj, UInt32.toNat_and, toNat_ofNat hv]
    show v &&& 1 = 1 ↔ _
    rw [Nat.and_one_is_mod]
  exact if_congr hodd rfl rfl

def evened (v : ℕ) (o : Bool) : ℕ := if v % 2 = 1 then if o then v + 1 else v - 1 else v

theorem evened_even (v : ℕ) (o : Bool) : evened v o % 2 = 0 := by
  unfold evened
  cases o <;> simp <;> split <;> omega

theorem mode3Half_eq (v : ℕ) (o : Bool) : mode3Half v o = max (evened v o / 2) 1 := by
  unfold mode3Half evened
  cases o with
  | false =>
    simp
    split <;> omega
  | true =>
    simp
    split <;> split <;> omega

theorem mode3Half_pos (v : ℕ) (o : Bool) : 0 < mode3Half v o := by
  rw [mode3Half_eq]
  omega

/-- The two half-periods make up the period. -/
theorem mode3Half_add (hv : 2 ≤ v) (o : Bool) : mode3Half v o + mode3Half v (!o) = v := by
  rw [mode3Half_eq, mode3Half_eq]
  unfold evened
  cases o <;> simp <;> split <;> omega

theorem mode3Value_zero (v : ℕ) (o : Bool) : mode3ValueInHalf v o 0 = v := if_pos rfl

theorem mode3Value_eq (v : ℕ) (o : Bool) {k : ℕ} (hk : 0 < k) :
    mode3ValueInHalf v o k = evened v o - 2 * k := by
  unfold mode3ValueInHalf evened
  rw [if_neg (by omega)]
  cases o <;> simp <;> split <;> omega

theorem mode3Value_le (v : ℕ) (o : Bool) (k : ℕ) : mode3ValueInHalf v o k ≤ v := by
  rcases Nat.eq_zero_or_pos k with rfl | hk
  · exact Nat.le_of_eq (mode3Value_zero v o)
  · rw [mode3Value_eq v o hk]
    unfold evened
    cases o <;> simp <;> split <;> omega

/-- The first clock evens the count and takes two off it. -/
theorem trim_eq (v : ℕ) (o : Bool) :
    v - trim v o = evened v o - 2 ∧ (trim v o < v ↔ 2 < evened v o) := by
  unfold trim evened
  cases o <;> simp <;> split <;> omega

theorem trim_of_even (h : v % 2 = 0) (o : Bool) : trim v o = 2 := if_neg (by omega)

/-- Within a half-period the element goes down as mode 3 takes it. -/
theorem mode3Value_succ {k : ℕ} (hk : k + 1 < mode3Half v o) :
    trim (mode3ValueInHalf v o k) o < mode3ValueInHalf v o k ∧
      mode3ValueInHalf v o k - trim (mode3ValueInHalf v o k) o = mode3ValueInHalf v o (k + 1) := by
  have heven := evened_even v o
  rw [mode3Half_eq] at hk
  rw [mode3Value_eq v o (Nat.succ_pos k)]
  rcases Nat.eq_zero_or_pos k with rfl | hpos
  · obtain ⟨hsub, hlt⟩ := trim_eq v o
    rw [mode3Value_zero, hsub, hlt]
    omega
  · rw [mode3Value_eq v o hpos, trim_of_even (by omega)]
    omega

/-- The last clock of a half-period. -/
theorem mode3Value_last {k : ℕ} (hk : k + 1 = mode3Half v o) :
    mode3ValueInHalf v o k ≤ trim (mode3ValueInHalf v o k) o := by
  have heven := evened_even v o
  rw [mode3Half_eq] at hk
  rcases Nat.eq_zero_or_pos k with rfl | hpos
  · have hlt := (trim_eq v o).2
    rw [mode3Value_zero]
    omega
  · rw [mode3Value_eq v o hpos, trim_of_even (by omega)]
    omega

/-- Quotient and remainder one further on. -/
theorem div_mod_succ {r : ℕ} (hr : 1 < r) (n : ℕ) :
    (n + 1) / r = n / r + (if n % r + 1 = r then 1 else 0) ∧
      (n + 1) % r = if n % r + 1 = r then 0 else n % r + 1 := by
  have hpos := Nat.zero_lt_of_lt hr
  have hlt := Nat.mod_lt n hpos
  rw [Nat.add_div hpos, Nat.add_mod_eq_ite, Nat.mod_eq_of_lt hr, Nat.div_eq_of_lt hr]
  constructor
  · split_ifs <;> omega
  · split_ifs <;> omega

def squareAt (c : Counter) (r : ℕ) (l : Bool) (p : ℕ) : Counter :=
  if p < mode3Half r l then c.showing (mode3ValueInHalf r l p) l
  else c.showing (mode3ValueInHalf r (!l) (p - mode3Half r l)) (!l)

def squareRise (r : ℕ) : Bool → ℕ
  | true => r
  | false => mode3Half r false

def squareEdges (r : ℕ) (l : Bool) (n : ℕ) : ℕ :=
  if l then 1 + n / r
  else if mode3Half r l ≤ n then (n - mode3Half r l) / r + 1
  else 0

theorem squareRise_bounds {r : ℕ} (hr : 2 ≤ r) (l : Bool) :
    0 < squareRise r l ∧ squareRise r l ≤ r := by
  have hadd := mode3Half_add hr false
  cases l with
  | true => exact ⟨by show 0 < r; omega, Nat.le_refl r⟩
  | false => exact ⟨mode3Half_pos r false, by show mode3Half r false ≤ r; omega⟩

theorem squareEdges_eq {r : ℕ} (hr : 2 ≤ r) (l : Bool) (n : ℕ) :
    squareEdges r l n = (n + (r - squareRise r l)) / r + l.toNat := by
  obtain ⟨hpos, hle⟩ := squareRise_bounds hr l
  cases l with
  | true =>
    rw [squareRise, Nat.sub_self, Nat.add_zero, Nat.add_comm]
    rfl
  | false =>
    rw [squareRise] at hpos hle ⊢
    rw [squareEdges, if_neg (by decide)]
    split_ifs with hpast
    · rw [show n + (r - mode3Half r false) = n - mode3Half r false + r by omega,
        Nat.add_div_right _ (by omega)]
      rfl
    · exact (Nat.div_eq_of_lt (by omega)).symm

theorem squareEdges_zero {r : ℕ} (hr : 2 ≤ r) (l : Bool) : squareEdges r l 0 = l.toNat := by
  have hpos := (squareRise_bounds hr l).1
  rw [squareEdges_eq hr, Nat.div_eq_of_lt (by omega), Nat.zero_add]

theorem squareEdges_succ {r : ℕ} (hr : 2 ≤ r) (l : Bool) (n : ℕ) :
    squareEdges r l (n + 1) =
      squareEdges r l n + (decide (n % r + 1 = squareRise r l)).toNat := by
  obtain ⟨hpos, hle⟩ := squareRise_bounds hr l
  have hp := Nat.mod_lt n (show 0 < r by omega)
  have hsplit := Nat.div_add_mod n r
  -- past the whole periods fewer than two are left
  have hturn : r ∣ n + (r - squareRise r l) + 1 ↔ n % r + 1 = squareRise r l := by
    rw [show n + (r - squareRise r l) + 1 = r * (n / r) + (n % r + 1 + (r - squareRise r l)) by omega,
      Nat.dvd_add_right (Nat.dvd_mul_right r _)]
    constructor
    · intro hdvd
      have hrest := Nat.eq_of_dvd_of_lt_two_mul (by omega) hdvd (by omega)
      omega
    · intro hrise
      exact ⟨1, by omega⟩
  rw [squareEdges_eq hr, squareEdges_eq hr, Nat.add_right_comm, Nat.succ_div, if_congr hturn rfl rfl,
    Nat.add_right_comm]
  exact congrArg _ (Bool.cond_decide _ 1 0).symm

theorem advanceSquare_before (hn : n < mode3Half c.count.toNat c.out) :
    c.advanceSquare n = (c.showing (mode3ValueInHalf c.count.toNat c.out n) c.out, 0) := by
  unfold advanceSquare
  simp only
  rw [if_pos hn]
  rfl

theorem advanceSquare_after {r : ℕ} (hr : c.effectiveReload.toNat = r) :
    c.advanceSquare (mode3Half c.count.toNat c.out + n) =
      (c.squareAt r (!c.out) (n % r), squareEdges r (!c.out) n) := by
  unfold advanceSquare
  simp only [hr]
  rw [if_neg (by omega), Nat.add_sub_cancel_left]
  rfl

/-- A counter with no live count stands still. -/
theorem run_idle (hstate : c.state = .inactive ∨ c.state = .waitGate) : run step c n = (c, 0) := by
  apply run_of_still
  unfold step
  rcases hstate with hstate | hstate <;> rw [hstate]

section Counting

variable (hstate : c.state = .counting) (hgate : c.gate = true) (hbcd : c.bcd = false)

include hstate hgate

theorem step_terminal (hmode : c.mode = 0 ∨ c.mode = 1) : c.step = c.stepTerminal := by
  unfold step stepCounting
  rw [hstate, hgate]
  rcases hmode with h | h <;> rw [h] <;> rfl

theorem step_rate (hmode : c.mode = 2) : c.step = c.stepRate := by
  unfold step stepCounting
  rw [hstate, hgate, hmode]
  rfl

theorem step_square (hmode : c.mode = 3) : c.step = c.stepSquare := by
  unfold step stepCounting
  rw [hstate, hgate, hmode]
  rfl

theorem step_strobe (hmode : c.mode = 4 ∨ c.mode = 5) : c.step = c.stepStrobe := by
  unfold step stepCounting
  rw [hstate, hgate]
  rcases hmode with h | h <;> rw [h] <;> rfl

/-- A clock of modes 0 and 1 short of terminal count. -/
theorem terminal_runs (hmode : c.mode = 0 ∨ c.mode = 1) {x y : ℕ}
    (hdec : c.dec (UInt32.ofNat x) 1 = UInt32.ofNat y) (h : o = true ∨ UInt32.ofNat y ≠ 0) :
    (c.showing x o).step = (c.showing y o, false) := by
  rw [step_terminal (c := c.showing x o) hstate hgate hmode, stepTerminal]
  simp only [showing_count, showing_dec, showing_out, hdec]
  rw [if_neg]
  · rfl
  · rintro ⟨hzero, hout⟩
    rcases h with h | h
    · rw [h] at hout
      cases hout
    · exact h hzero

/-- Terminal count of modes 0 and 1. -/
theorem terminal_rises (hmode : c.mode = 0 ∨ c.mode = 1) {x : ℕ}
    (hdec : c.dec (UInt32.ofNat x) 1 = 0) :
    (c.showing x false).step =
      ({ c.showing 0 true with state := if c.mode ≠ 0 then .inactive else c.state }, true) := by
  rw [step_terminal (c := c.showing x false) hstate hgate hmode, stepTerminal]
  simp only [showing_count, showing_dec, showing_out, hdec]
  rw [if_pos ⟨trivial, trivial⟩]
  rfl

include hbcd

theorem advanceTerminal_succ (hmode : c.mode = 0 ∨ c.mode = 1) (hn : n + 1 < 2 ^ 32) :
    c.advanceTerminal (n + 1) = next step (c.advanceTerminal n) := by
  have hv := c.count.toNat_lt
  have hafter : ∀ m, c.out = true ∨ c.count.toNat = 0 ∨ m < c.count.toNat →
      c.advanceTerminal m = (c.showing (wrap32 c.count.toNat m) c.out, 0) := by
    intro m hm
    refine if_neg ?_
    rintro ⟨hout, hne, hle⟩
    rcases hm with h | h | h
    · rw [h] at hout
      cases hout
    · exact hne h
    · omega
  by_cases hquiet : c.out = true ∨ c.count.toNat = 0 ∨ n + 1 < c.count.toNat
  · rw [hafter (n + 1) hquiet, hafter n (hquiet.imp_right (Or.imp_right (by omega))), next,
      terminal_runs hstate hgate hmode (dec_wrap32 hbcd hn)]
    · rfl
    · rcases hquiet with h | h | h
      · exact .inl h
      · right
        apply ofNat_ne_zero (wrap32_lt _ _)
        rw [h, wrap32]
        omega
      · right
        apply ofNat_ne_zero (wrap32_lt _ _)
        rw [wrap32_eq (by omega) hv]
        omega
  · have hout : c.out = false := by
      cases h : c.out with
      | false => rfl
      | true => exact absurd (.inl h) hquiet
    have hpos : c.count.toNat ≠ 0 := fun h => hquiet (.inr (.inl h))
    have hle : c.count.toNat ≤ n + 1 := by omega
    have hrose : ∀ m, c.count.toNat ≤ m → c.advanceTerminal m =
        if c.mode ≠ 0 then ({ c.showing 0 true with state := .inactive }, 1)
        else (c.showing (wrap32 c.count.toNat m) true, 1) := fun m hm => if_pos ⟨hout, hpos, hm⟩
    by_cases hpast : c.count.toNat ≤ n
    · -- terminal count is behind: a pulse is over, and mode 0 counts on
      rw [hrose (n + 1) hle, hrose n hpast]
      by_cases hzero : c.mode = 0
      · rw [if_neg (not_not.mpr hzero), if_neg (not_not.mpr hzero), next,
          terminal_runs hstate hgate hmode (dec_wrap32 hbcd hn) (.inl rfl)]
        rfl
      · rw [if_pos hzero, if_pos hzero]
        rfl
    · have hend : wrap32 c.count.toNat (n + 1) = 0 := by
        have heq : n + 1 = c.count.toNat := by omega
        rw [heq, wrap32_eq (Nat.le_refl _) hv, Nat.sub_self]
      have hdec : c.dec (UInt32.ofNat (wrap32 c.count.toNat n)) 1 = 0 := by
        rw [dec_wrap32 hbcd hn, hend]
        rfl
      rw [hrose (n + 1) hle, hafter n (.inr (.inr (by omega))), hout, next,
        terminal_rises hstate hgate hmode hdec, hend]
      by_cases hzero : c.mode = 0
      · rw [if_neg (not_not.mpr hzero), if_neg (not_not.mpr hzero)]
        rfl
      · rw [if_pos hzero, if_pos hzero]
        rfl

omit hstate hgate hbcd in
theorem advanceTerminal_zero (c : Counter) : c.advanceTerminal 0 = (c, 0) := by
  unfold advanceTerminal
  simp only
  rw [if_neg (by omega), wrap32_eq (Nat.zero_le _) c.count.toNat_lt, Nat.sub_zero, setCount,
    UInt32.ofNat_toNat]

theorem advanceTerminal_eq_run (hmode : c.mode = 0 ∨ c.mode = 1) (hn : n < 2 ^ 32) :
    c.advanceTerminal n = run step c n :=
  eq_run (advanceTerminal_zero c) (fun _ => advanceTerminal_succ hstate hgate hbcd hmode) hn

omit hbcd in
/-- The reload clock of mode 2. -/
theorem rate_reloads (hmode : c.mode = 2) (hv : v ≤ 1) :
    (c.showing v o).step = (c.showing c.effectiveReload.toNat true, !o) := by
  have hle : UInt32.ofNat v ≤ 1 := by
    rw [UInt32.le_iff_toNat_le, toNat_ofNat (by omega)]
    exact hv
  rw [step_rate (c := c.showing v o) hstate hgate hmode, stepRate, showing_count, if_pos hle,
    showing_reloaded]
  rfl

/-- Any other clock of mode 2: OUT falls as the element comes to 1. -/
theorem rate_runs (hmode : c.mode = 2) (hle : 2 ≤ v) (hv : v < 2 ^ 32) :
    (c.showing v o).step = (c.showing (v - 1) (if v = 2 then false else o), false) := by
  have hgt : ¬ UInt32.ofNat v ≤ 1 := by
    rw [UInt32.le_iff_toNat_le, toNat_ofNat hv]
    show ¬ v ≤ 1
    omega
  have hone : (UInt32.ofNat (v - 1) = 1) = (v = 2) := by
    rw [← UInt32.toNat_inj, toNat_ofNat (by omega)]
    show (v - 1 = 1) = _
    exact propext (by omega)
  rw [step_rate (c := c.showing v o) hstate hgate hmode, stepRate, showing_count, if_neg hgt]
  simp only [showing_dec, showing_out, dec_of_le hbcd hv (show 1 ≤ v by omega), hone]
  rfl

/-- The periods of mode 2 after the first reload. -/
theorem rate_period (hmode : c.mode = 2) {r p : ℕ} (hr : c.effectiveReload.toNat = r) (hlegal : 2 ≤ r)
    (hp : p < r) :
    (c.showing (r - p) (decide (p ≠ r - 1))).step =
      if p + 1 = r then (c.showing r true, true)
      else (c.showing (r - (p + 1)) (decide (p + 1 ≠ r - 1)), false) := by
  have hbound := c.effectiveReload_bounds.2
  split
  · rename_i hlast
    have hout : decide (p ≠ r - 1) = false := decide_eq_false (by omega)
    rw [rate_reloads hstate hgate hmode (by omega), hout, hr]
    rfl
  · rename_i hmore
    rw [rate_runs hstate hgate hbcd hmode (by omega) (by omega)]
    have hnext : r - p - 1 = r - (p + 1) := by omega
    have hout : (if r - p = 2 then false else decide (p ≠ r - 1)) = decide (p + 1 ≠ r - 1) := by
      split
      · exact (decide_eq_false (by omega)).symm
      · rw [decide_eq_true (by omega), decide_eq_true (by omega)]
    rw [hnext, hout]

/-- Mode 2 on its way down to the first reload. -/
theorem rate_down (hmode : c.mode = 2) (htwo : 2 ≤ c.count.toNat) (hn : n < c.count.toNat) :
    run step c n =
      (c.showing (c.count.toNat - n) (if c.count.toNat - n = 1 then false else c.out), 0) := by
  have hv := c.count.toNat_lt
  induction n with
  | zero => rw [run, Nat.sub_zero, if_neg (by omega), showing_self]
  | succ n ih =>
    rw [run, ih (by omega), if_neg (by omega), next,
      rate_runs hstate hgate hbcd hmode (by omega) (by omega)]
    have hnext : c.count.toNat - n - 1 = c.count.toNat - (n + 1) := by omega
    have hfall : c.count.toNat - n = 2 ↔ c.count.toNat - (n + 1) = 1 := by omega
    simp only [hnext, hfall]
    rfl

section Reload

variable {r first : ℕ} (hmode : c.mode = 2) (hr : c.effectiveReload.toNat = r)
  (hfirst : (if 2 ≤ c.count.toNat then c.count.toNat else 1) = first)

include hmode hr hfirst

/-- The first reload of mode 2. -/
theorem rate_first :
    run step c first = (c.showing r true, (if 2 ≤ c.count.toNat then true else !c.out).toNat) := by
  by_cases htwo : 2 ≤ c.count.toNat
  · rw [if_pos htwo] at hfirst ⊢
    obtain ⟨m, hm⟩ : ∃ m, c.count.toNat = m + 1 := ⟨c.count.toNat - 1, by omega⟩
    rw [← hfirst, hm, run, rate_down hstate hgate hbcd hmode htwo (by omega), hm,
      Nat.add_sub_cancel_left, next, rate_reloads hstate hgate hmode (Nat.le_refl 1), hr]
    rfl
  · rw [if_neg htwo] at hfirst ⊢
    have hstep := rate_reloads (o := c.out) hstate hgate hmode (show c.count.toNat ≤ 1 by omega)
    rw [showing_self, hr] at hstep
    rw [← hfirst, run, run, next, hstep, Nat.zero_add]

/-- Mode 2 from the first reload on. -/
theorem rate_after (hlegal : 2 ≤ r) (k : ℕ) :
    run step c (first + k) = (c.showing (r - k % r) (decide (k % r ≠ r - 1)),
      (if 2 ≤ c.count.toNat then true else !c.out).toNat + k / r) := by
  induction k with
  | zero =>
    rw [Nat.add_zero, rate_first hstate hgate hbcd hmode hr hfirst, Nat.zero_mod, Nat.zero_div,
      decide_eq_true (show 0 ≠ r - 1 by omega)]
    rfl
  | succ k ih =>
    obtain ⟨hdiv, hmod⟩ := div_mod_succ (by omega : 1 < r) k
    rw [← Nat.add_assoc, run, ih, next,
      rate_period hstate hgate hbcd hmode hr hlegal (Nat.mod_lt k (by omega)), hdiv, hmod]
    split
    · rw [decide_eq_true (show 0 ≠ r - 1 by omega), Nat.sub_zero]
      rfl
    · rfl

/-- The illegal reload of mode 2: from the first reload on every clock reloads. -/
theorem rate_illegal (hillegal : r = 1) (k : ℕ) : (run step c (first + k)).1 = c.showing 1 true := by
  subst hillegal
  induction k with
  | zero => rw [Nat.add_zero, rate_first hstate hgate hbcd hmode hr hfirst]
  | succ k ih => rw [← Nat.add_assoc, run, next, ih, rate_reloads hstate hgate hmode (Nat.le_refl 1), hr]

end Reload

theorem advanceRate_eq_run (hmode : c.mode = 2) (hlegal : 2 ≤ c.effectiveReload.toNat) (hn : n ≠ 0) :
    c.advanceRate n = run step c n := by
  generalize hr : c.effectiveReload.toNat = r at hlegal
  generalize hfirst : (if 2 ≤ c.count.toNat then c.count.toNat else 1) = first
  by_cases hbefore : n < first
  · have htwo : 2 ≤ c.count.toNat := by
      by_contra hno
      rw [if_neg hno] at hfirst
      omega
    rw [advanceRate_before (hfirst ▸ hbefore), rate_down hstate hgate hbcd hmode htwo]
    rwa [← hfirst, if_pos htwo] at hbefore
  · obtain ⟨k, rfl⟩ : ∃ k, n = first + k := ⟨n - first, by omega⟩
    rw [advanceRate_after hr hfirst, rate_after hstate hgate hbcd hmode hr hfirst hlegal]

omit hbcd in
/-- The reload clock of mode 3. -/
theorem square_toggles (hmode : c.mode = 3) (hv : v < 2 ^ 32) (hle : v ≤ trim v o) :
    (c.showing v o).step = (c.showing c.effectiveReload.toNat (!o), !o) := by
  have hsmall : trim v o < 2 ^ 32 := by
    unfold trim
    split
    · split <;> decide
    · decide
  have hcmp : UInt32.ofNat v ≤ UInt32.ofNat (trim v o) := by
    rw [UInt32.le_iff_toNat_le, toNat_ofNat hv, toNat_ofNat hsmall]
    exact hle
  rw [step_square (c := c.showing v o) hstate hgate hmode, stepSquare, squareStep_showing hv,
    showing_count, if_pos hcmp, showing_reloaded]
  rfl

theorem square_runs (hmode : c.mode = 3) (hv : v < 2 ^ 32) (hlt : trim v o < v) :
    (c.showing v o).step = (c.showing (v - trim v o) o, false) := by
  have hcmp : ¬ UInt32.ofNat v ≤ UInt32.ofNat (trim v o) := by
    rw [UInt32.le_iff_toNat_le, toNat_ofNat hv, toNat_ofNat (by omega)]
    omega
  rw [step_square (c := c.showing v o) hstate hgate hmode, stepSquare, squareStep_showing hv,
    showing_count, if_neg hcmp]
  simp only [showing_dec, dec_of_le hbcd hv (Nat.le_of_lt hlt)]
  rfl

/-- A clock within a half-period that began at `v`. -/
theorem half_runs (hmode : c.mode = 3) (hv : v < 2 ^ 32) {k : ℕ} (hk : k + 1 < mode3Half v o) :
    (c.showing (mode3ValueInHalf v o k) o).step = (c.showing (mode3ValueInHalf v o (k + 1)) o, false) := by
  obtain ⟨hlt, hsub⟩ := mode3Value_succ hk
  have hle := mode3Value_le v o k
  rw [square_runs hstate hgate hbcd hmode (by omega) hlt, hsub]

omit hbcd in
theorem half_toggles (hmode : c.mode = 3) (hv : v < 2 ^ 32) {k : ℕ} (hk : k + 1 = mode3Half v o) :
    (c.showing (mode3ValueInHalf v o k) o).step = (c.showing c.effectiveReload.toNat (!o), !o) := by
  have hle := mode3Value_le v o k
  exact square_toggles hstate hgate hmode (by omega) (mode3Value_last hk)

/-- A clock of the period. -/
theorem square_period (hmode : c.mode = 3) {r p : ℕ} {l : Bool} (hr : c.effectiveReload.toNat = r)
    (hlegal : 2 ≤ r) (hp : p < r) :
    (c.squareAt r l p).step =
      (c.squareAt r l (if p + 1 = r then 0 else p + 1), decide (p + 1 = squareRise r l)) := by
  have hbound := c.effectiveReload_bounds.2
  have hadd := mode3Half_add hlegal l
  have hpos := mode3Half_pos r l
  have hother := mode3Half_pos r (!l)
  have hrise : squareRise r l = if l then r else mode3Half r l := by cases l <;> rfl
  have hstart : ∀ o, c.showing c.effectiveReload.toNat o = c.showing (mode3ValueInHalf r o 0) o := by
    intro o
    rw [mode3Value_zero, hr]
  unfold squareAt
  by_cases hfirst : p < mode3Half r l
  · rw [if_pos hfirst, if_neg (show ¬ p + 1 = r by omega)]
    by_cases hlast : p + 1 = mode3Half r l
    · have hedge : decide (p + 1 = squareRise r l) = !l := by
        rw [hrise]
        cases l <;> simp <;> omega
      rw [half_toggles hstate hgate hmode (by omega) hlast, hedge, if_neg (by omega), hlast,
        Nat.sub_self, hstart]
    · have hedge : decide (p + 1 = squareRise r l) = false := by
        rw [hrise]
        cases l <;> simp <;> omega
      rw [half_runs hstate hgate hbcd hmode (by omega) (by omega), hedge, if_pos (by omega)]
  · obtain ⟨k, rfl⟩ : ∃ k, p = mode3Half r l + k := ⟨p - mode3Half r l, by omega⟩
    rw [if_neg hfirst, Nat.add_sub_cancel_left]
    by_cases hlast : k + 1 = mode3Half r (!l)
    · have hedge : decide (mode3Half r l + k + 1 = squareRise r l) = l := by
        rw [hrise]
        cases l <;> simp at hlast hadd ⊢ <;> omega
      rw [half_toggles hstate hgate hmode (by omega) hlast, hedge,
        if_pos (show mode3Half r l + k + 1 = r by omega), if_pos hpos, hstart, Bool.not_not]
    · have hedge : decide (mode3Half r l + k + 1 = squareRise r l) = false := by
        rw [hrise]
        cases l <;> simp at hlast hadd ⊢ <;> omega
      rw [half_runs hstate hgate hbcd hmode (by omega) (by omega), hedge,
        if_neg (show ¬ mode3Half r l + k + 1 = r by omega), if_neg (by omega), Nat.add_assoc,
        Nat.add_sub_cancel_left]

/-- Mode 3 inside the half-period under way. -/
theorem half_down (hmode : c.mode = 3) (hn : n < mode3Half c.count.toNat c.out) :
    run step c n = (c.showing (mode3ValueInHalf c.count.toNat c.out n) c.out, 0) := by
  induction n with
  | zero => rw [run, mode3Value_zero, showing_self]
  | succ n ih =>
    rw [run, ih (by omega), next, half_runs hstate hgate hbcd hmode c.count.toNat_lt hn]
    rfl

section Toggle

variable {r half : ℕ} (hmode : c.mode = 3) (hr : c.effectiveReload.toNat = r)
  (hhalf : mode3Half c.count.toNat c.out = half)

include hmode hr hhalf

/-- The first toggle of mode 3. -/
theorem square_first : run step c half = (c.showing r (!c.out), (!c.out).toNat) := by
  have hpos := mode3Half_pos c.count.toNat c.out
  obtain ⟨m, rfl⟩ : ∃ m, half = m + 1 := ⟨half - 1, by omega⟩
  rw [run, half_down hstate hgate hbcd hmode (by omega), next,
    half_toggles hstate hgate hmode c.count.toNat_lt hhalf.symm, hr, Nat.zero_add]

/-- Mode 3 from the first toggle on. -/
theorem square_after (hlegal : 2 ≤ r) (k : ℕ) :
    run step c (half + k) = (c.squareAt r (!c.out) (k % r), squareEdges r (!c.out) k) := by
  induction k with
  | zero =>
    have hpos := mode3Half_pos r (!c.out)
    rw [Nat.add_zero, square_first hstate hgate hbcd hmode hr hhalf, Nat.zero_mod, squareAt,
      if_pos hpos, mode3Value_zero, squareEdges_zero hlegal]
  | succ k ih =>
    rw [← Nat.add_assoc, run, ih, next,
      square_period hstate hgate hbcd hmode hr hlegal (Nat.mod_lt k (by omega)),
      squareEdges_succ hlegal, (div_mod_succ (by omega : 1 < r) k).2]

/-- The illegal reload of mode 3: from the first toggle on every clock toggles. -/
theorem square_illegal (hillegal : r = 1) (k : ℕ) :
    (run step c (half + k)).1 = c.showing 1 (if k % 2 = 0 then !c.out else c.out) := by
  have hone (o : Bool) : 1 ≤ trim 1 o := by cases o <;> decide
  subst hillegal
  induction k with
  | zero =>
    rw [Nat.add_zero, square_first hstate hgate hbcd hmode hr hhalf]
    rfl
  | succ k ih =>
    rw [← Nat.add_assoc, run, next, ih, square_toggles hstate hgate hmode (by decide) (hone _), hr]
    rcases Nat.mod_two_eq_zero_or_one k with heven | hodd
    · rw [if_pos heven, if_neg (by omega), Bool.not_not]
    · rw [if_neg (by omega), if_pos (by omega)]

end Toggle

theorem advanceSquare_eq_run (hmode : c.mode = 3) (hlegal : 2 ≤ c.effectiveReload.toNat) :
    c.advanceSquare n = run step c n := by
  by_cases hbefore : n < mode3Half c.count.toNat c.out
  · rw [advanceSquare_before hbefore, half_down hstate hgate hbcd hmode hbefore]
  · obtain ⟨k, rfl⟩ := Nat.exists_eq_add_of_le (Nat.not_lt.mp hbefore)
    rw [advanceSquare_after rfl, square_after hstate hgate hbcd hmode rfl rfl hlegal]

omit hbcd in
/-- A clock of modes 4 and 5 with OUT high. -/
theorem strobe_runs (hmode : c.mode = 4 ∨ c.mode = 5) {x y : ℕ}
    (hdec : c.dec (UInt32.ofNat x) 1 = UInt32.ofNat y) :
    (c.showing x true).step = (c.showing y (if UInt32.ofNat y = 0 then false else true), false) := by
  rw [step_strobe (c := c.showing x true) hstate hgate hmode, stepStrobe]
  simp only [showing_count, showing_dec, showing_out, hdec, if_true]
  rfl

omit hbcd in
/-- The clock after the strobe. -/
theorem strobe_ends (hmode : c.mode = 4 ∨ c.mode = 5) (x : ℕ) :
    (c.showing x false).step = ({ c.showing x true with state := .inactive }, true) := by
  rw [step_strobe (c := c.showing x false) hstate hgate hmode, stepStrobe]
  simp only [showing_out, Bool.false_eq_true, if_false]
  rfl

omit hstate hgate hbcd in
theorem advanceStrobe_zero (hout : c.out = true) : c.advanceStrobe 0 = (c, 0) := by
  have hself : c.setCount c.count.toNat = c := by
    rw [setCount, UInt32.ofNat_toNat]
  unfold advanceStrobe
  simp only
  rw [if_neg (by rw [hout]; decide)]
  split
  · rename_i hzero
    rw [wrap32_eq (Nat.zero_le _) c.count.toNat_lt, Nat.sub_zero, hself]
  · rename_i hpos
    rw [if_pos (Nat.zero_le _), if_neg (Ne.symm hpos), Nat.sub_zero]
    exact congrArg (·, 0) hself

omit hstate hgate hbcd in
/-- Out of the strobe, the pulse is over. -/
theorem advanceStrobe_low (hout : c.out = false) (n : ℕ) :
    c.advanceStrobe n = ({ c with out := true, state := .inactive }, 1) := if_pos hout

theorem advanceStrobe_succ (hmode : c.mode = 4 ∨ c.mode = 5) (hout : c.out = true)
    (hn : n + 1 < 2 ^ 32) : c.advanceStrobe (n + 1) = next step (c.advanceStrobe n) := by
  have hv := c.count.toNat_lt
  have hhigh : ¬ c.out = false := by
    rw [hout]
    decide
  by_cases hzero : c.count.toNat = 0
  · -- the element wraps
    have hform : ∀ m, c.advanceStrobe m = (c.showing (wrap32 c.count.toNat m) true, 0) := by
      intro m
      unfold advanceStrobe
      simp only
      rw [if_neg hhigh, if_pos hzero, ← hout]
      rfl
    rw [hform, hform, next, strobe_runs hstate hgate hmode (dec_wrap32 hbcd hn), if_neg]
    · rfl
    · apply ofNat_ne_zero (wrap32_lt _ _)
      rw [hzero, wrap32]
      omega
  · have hrun : ∀ m, m ≤ c.count.toNat → c.advanceStrobe m =
        (c.showing (c.count.toNat - m) (if m = c.count.toNat then false else true), 0) := by
      intro m hm
      unfold advanceStrobe
      simp only
      rw [if_neg hhigh, if_neg hzero, if_pos hm, ← hout]
      rfl
    have hover : ∀ m, c.count.toNat < m →
        c.advanceStrobe m = ({ c.showing 0 true with state := .inactive }, 1) := by
      intro m hm
      unfold advanceStrobe
      simp only
      rw [if_neg hhigh, if_neg hzero, if_neg (by omega), ← hout]
      rfl
    rcases Nat.lt_trichotomy n c.count.toNat with hlt | heq | hgt
    · have hdec : c.dec (UInt32.ofNat (c.count.toNat - n)) 1 =
          UInt32.ofNat (c.count.toNat - (n + 1)) := dec_of_le hbcd (by omega) (by omega)
      have hlevel : (if UInt32.ofNat (c.count.toNat - (n + 1)) = 0 then false else true) =
          if n + 1 = c.count.toNat then false else true := by
        apply if_congr _ rfl rfl
        rw [← UInt32.toNat_inj, toNat_ofNat (by omega), UInt32.toNat_zero]
        omega
      rw [hrun n (by omega), hrun (n + 1) hlt, if_neg (show ¬ n = c.count.toNat by omega), next,
        strobe_runs hstate hgate hmode hdec, hlevel]
      rfl
    · rw [hrun n (by omega), if_pos heq, hover (n + 1) (by omega), next, strobe_ends hstate hgate hmode]
      rw [heq, Nat.sub_self]
      rfl
    · rw [hover n hgt, hover (n + 1) (by omega)]
      rfl

theorem advanceStrobe_eq_run (hmode : c.mode = 4 ∨ c.mode = 5) (hpos : n ≠ 0) (hn : n < 2 ^ 32) :
    c.advanceStrobe n = run step c n := by
  cases hout : c.out with
  | true =>
    exact eq_run (advanceStrobe_zero hout)
      (fun _ => advanceStrobe_succ hstate hgate hbcd hmode hout) hn
  | false =>
    obtain ⟨m, rfl⟩ := Nat.exists_eq_succ_of_ne_zero hpos
    have hstep := strobe_ends hstate hgate hmode c.count.toNat
    rw [← hout, showing_self] at hstep
    rw [advanceStrobe_low hout, run_head hstep, run_idle (.inl rfl), showing, UInt32.ofNat_toNat]
    rfl

end Counting

/-- Counting under a low GATE stands still. -/
theorem run_paused (hstate : c.state = .counting) (hgate : c.gate = false) :
    run step c (n + 1) = (c.pause, 0) := by
  have hpause {d : Counter} (hd : d.state = .counting) (hlow : d.gate = false) :
      d.step = (d.pause, false) := by
    unfold step stepCounting
    rw [hd]
    exact if_pos hlow
  have htwice : c.pause.pause = c.pause := by
    unfold pause
    split_ifs <;> rfl
  have hstill : c.pause.step = (c.pause, false) := by
    rw [hpause (d := c.pause) hstate hgate, htwice]
  rw [run_head (hpause hstate hgate), run_of_still hstill]
  rfl

section Open

variable (hgate : c.gate = true) (hpos : n ≠ 0)

include hgate hpos

/-! With GATE high a span of clocks goes to the closed form of the mode. -/

theorem advanceCounting_terminal (hmode : c.mode = 0 ∨ c.mode = 1) :
    c.advanceCounting n = c.advanceTerminal n := by
  unfold advanceCounting
  rw [if_neg hpos, hgate, if_neg Bool.true_eq_false.mp]
  rcases hmode with hmode | hmode
  · rw [hmode]
    rfl
  · rw [hmode]
    rfl

theorem advanceCounting_rate (hmode : c.mode = 2) : c.advanceCounting n = c.advanceRate n := by
  unfold advanceCounting
  rw [if_neg hpos, hgate, if_neg Bool.true_eq_false.mp, hmode]
  rfl

theorem advanceCounting_square (hmode : c.mode = 3) : c.advanceCounting n = c.advanceSquare n := by
  unfold advanceCounting
  rw [if_neg hpos, hgate, if_neg Bool.true_eq_false.mp, hmode]
  rfl

theorem advanceCounting_strobe (hmode : c.mode = 4 ∨ c.mode = 5) :
    c.advanceCounting n = c.advanceStrobe n := by
  unfold advanceCounting
  rw [if_neg hpos, hgate, if_neg Bool.true_eq_false.mp]
  rcases hmode with hmode | hmode
  · rw [hmode]
    rfl
  · rw [hmode]
    rfl

theorem advanceCounting_modeless {k : ℕ} (hmode : c.mode = k + 6) :
    c.advanceCounting n = (c, 0) := by
  unfold advanceCounting
  rw [if_neg hpos, hgate, if_neg Bool.true_eq_false.mp, hmode]
  rfl

end Open

/-- The modes, by the closed form that advances them. -/
theorem mode_cases (c : Counter) : (c.mode = 0 ∨ c.mode = 1) ∨ c.mode = 2 ∨ c.mode = 3 ∨
    (c.mode = 4 ∨ c.mode = 5) ∨ ∃ k, c.mode = k + 6 := by
  by_cases hmode : c.mode < 6
  · omega
  · exact .inr (.inr (.inr (.inr ⟨c.mode - 6, by omega⟩)))

theorem run_modeless (hstate : c.state = .counting) (hgate : c.gate = true) {k : ℕ}
    (hmode : c.mode = k + 6) : run step c n = (c, 0) := by
  apply run_of_still
  unfold step stepCounting
  rw [hstate, hgate, hmode]
  rfl

/-- The closed form of counting is the counter clock by clock. -/
theorem advanceCounting_eq_run (hstate : c.state = .counting) (hbcd : c.bcd = false)
    (hlegal : c.mode = 2 ∨ c.mode = 3 → 2 ≤ c.effectiveReload.toNat) (hn : n < 2 ^ 32) :
    c.advanceCounting n = run step c n := by
  cases n with
  | zero => rfl
  | succ n =>
    have hpos := n.succ_ne_zero
    cases hgate : c.gate with
    | false =>
      rw [run_paused hstate hgate, advanceCounting, if_neg hpos, if_pos hgate]
    | true =>
      obtain hmode | hmode | hmode | hmode | ⟨k, hmode⟩ := c.mode_cases
      · rw [advanceCounting_terminal hgate hpos hmode]
        exact advanceTerminal_eq_run hstate hgate hbcd hmode hn
      · rw [advanceCounting_rate hgate hpos hmode]
        exact advanceRate_eq_run hstate hgate hbcd hmode (hlegal (.inl hmode)) hpos
      · rw [advanceCounting_square hgate hpos hmode]
        exact advanceSquare_eq_run hstate hgate hbcd hmode (hlegal (.inr hmode))
      · rw [advanceCounting_strobe hgate hpos hmode]
        exact advanceStrobe_eq_run hstate hgate hbcd hmode hpos hn
      · rw [advanceCounting_modeless hgate hpos hmode, run_modeless hstate hgate hmode]

theorem bulkDecline_none (h : c.bulkDecline = none) : c.bcd = false ∧
    (c.state = .loadDelay ∨ c.state = .counting → c.mode = 2 ∨ c.mode = 3 →
      2 ≤ c.effectiveReload.toNat) := by
  unfold bulkDecline at h
  split at h
  · cases h
  · rename_i hbcd
    split at h
    · cases h
    · rename_i hlegal
      refine ⟨Bool.eq_false_iff.mpr hbcd, fun hlive hmode => ?_⟩
      by_contra hlow
      refine hlegal ⟨hlive, hmode, ?_⟩
      rw [UInt32.le_iff_toNat_le]
      show _ ≤ 1
      omega

theorem advance_idle (hstate : c.state = .inactive ∨ c.state = .waitGate) : c.advance n = (c, 0) := by
  unfold advance
  split_ifs
  · rfl
  · rcases hstate with hstate | hstate <;> rw [hstate]

theorem advance_load (hstate : c.state = .loadDelay) :
    c.advance (n + 1) = c.load.advanceCounting n := by
  unfold advance
  rw [if_neg n.succ_ne_zero, hstate]
  rfl

theorem advance_counting (hstate : c.state = .counting) : c.advance n = c.advanceCounting n := by
  unfold advance
  split_ifs with hzero
  · rw [hzero]
    rfl
  · rw [hstate]

/-- The first clock of a pending count loads it. -/
theorem run_load (hstate : c.state = .loadDelay) : run step c (n + 1) = run step c.load n := by
  have hstep : c.step = (c.load, false) := by
    unfold step
    rw [hstate]
  rw [run_head hstep]
  exact Prod.ext rfl (Nat.zero_add _)

/-- A span of clocks at once and clock by clock: the counter after it, and its rising edges. -/
theorem advance_eq_run (h : c.bulkDecline = none) (hn : n < 2 ^ 32) :
    c.advance n = run step c n := by
  obtain ⟨hbcd, hlegal⟩ := bulkDecline_none h
  cases hstate : c.state with
  | inactive => rw [advance_idle (.inl hstate), run_idle (.inl hstate)]
  | waitGate => rw [advance_idle (.inr hstate), run_idle (.inr hstate)]
  | loadDelay =>
    cases n with
    | zero => rfl
    | succ n =>
      rw [advance_load hstate, run_load hstate]
      exact advanceCounting_eq_run rfl hbcd (hlegal (.inl hstate)) (by omega)
  | counting =>
    rw [advance_counting hstate]
    exact advanceCounting_eq_run hstate hbcd (hlegal (.inr hstate)) hn

end IzarraVM.Timer.Counter
