import IzarraVM.PitPorts
import IzarraVM.PitTransitions
import IzarraVM.StepRuns

/-! The peeks of a counter against its clocks. -/
namespace IzarraVM.Timer.Counter

open ClockTrace

variable {c : Counter} {n : ℕ}

def after (c : Counter) (n : ℕ) : Counter := (run step c n).1

@[simp] theorem after_zero (c : Counter) : c.after 0 = c := rfl

theorem after_succ (c : Counter) (n : ℕ) : c.after (n + 1) = (c.after n).step.1 := rfl

theorem after_add (c : Counter) (m n : ℕ) : c.after (m + n) = (c.after m).after n := by
  induction n with
  | zero => rfl
  | succ n ih => rw [← Nat.add_assoc, after_succ, ih, after_succ]

theorem maskedCount_showing (c : Counter) {v : ℕ} (hv : v < 2 ^ 32) (o : Bool) :
    (c.showing v o).maskedCount = mask16 v := by
  rw [maskedCount, showing_count, toNat_ofNat hv]

structure Peeked (c : Counter) (n : ℕ) : Prop where
  out : (c.after n).out =
    countingOutAfter c.mode c.count.toNat c.effectiveReload.toNat c.out n
  count : (c.after n).maskedCount = countingCountAfter c.mode c.count c.effectiveReload c.out n

section Levels

variable {mode : ℕ} (v r : ℕ) (out : Bool) (hpos : n ≠ 0)

include hpos

theorem countingOutAfter_terminal (hmode : mode = 0 ∨ mode = 1) :
    countingOutAfter mode v r out n = if out ∨ v = 0 then out else decide (v ≤ n) := by
  rcases hmode with rfl | rfl <;> exact if_neg hpos

theorem countingOutAfter_rate {first : ℕ} (hfirst : (if 2 ≤ v then v else 1) = first) :
    countingOutAfter 2 v r out n =
      if n < first then if n + 1 = first then false else out
      else if r ≤ 1 then true else decide ((n - first) % r + 1 ≠ r) := by
  rw [← hfirst]
  exact if_neg hpos

theorem countingOutAfter_square {half : ℕ} (hhalf : mode3Half v out = half) :
    countingOutAfter 3 v r out n =
      if n < half then out
      else if r ≤ 1 then if (n - half) % 2 = 0 then !out else out
      else if (n - half) % r < mode3Half r (!out) then !out else out := by
  have hform : countingOutAfter 3 v r out n =
      if n < half then out
      else if r ≤ 1 then if (n - half) % 2 = 0 then !out else !!out
      else if (n - half) % r < mode3Half r (!out) then !out else !!out := by
    rw [← hhalf]
    exact if_neg hpos
  rw [hform, Bool.not_not]

theorem countingOutAfter_strobe (hmode : mode = 4 ∨ mode = 5) :
    countingOutAfter mode v r out n =
      if out = false then true else if v = 0 then out else decide (n ≠ v) := by
  rcases hmode with rfl | rfl <;> exact if_neg hpos

end Levels

section Counting

variable (hstate : c.state = .counting) (hgate : c.gate = true) (hbcd : c.bcd = false)

include hstate hgate hbcd

omit hgate in
theorem after_eq_advanceCounting (hmode : c.mode = 2 ∨ c.mode = 3 → 2 ≤ c.effectiveReload.toNat)
    (hn : n < 2 ^ 32) : c.after n = (c.advanceCounting n).1 := by
  rw [after, advanceCounting_eq_run hstate hbcd hmode hn]

section

variable (hpos : n ≠ 0)
include hpos

/-- The peeks of modes 0 and 1. -/
theorem peeked_terminal (hn : n < 2 ^ 32) (hmode : c.mode = 0 ∨ c.mode = 1) : Peeked c n := by
  have hwrap := wrap32_lt c.count.toNat n
  have hform : c.after n = (c.advanceTerminal n).1 := by
    rw [after_eq_advanceCounting hstate hbcd (by omega) hn, advanceCounting_terminal hgate hpos hmode]
  constructor
  · rw [hform, advanceTerminal_out, countingOutAfter_terminal _ _ _ hpos hmode]
    cases c.out with
    | true => simp
    | false =>
      by_cases hzero : c.count.toNat = 0
      · simp [hzero]
      · by_cases hdue : c.count.toNat ≤ n <;> simp [hzero, hdue]
  · have hcount : countingCountAfter c.mode c.count c.effectiveReload c.out n =
        if c.mode ≠ 0 ∧ c.out = false ∧ (if c.count.toNat = 0 then 2 ^ 32 else c.count.toNat) ≤ n then 0
        else mask16 (wrap32 c.count.toNat n) := by
      rcases hmode with hmode | hmode
      · rw [hmode, if_neg (by simp)]
        exact if_neg hpos
      · rw [hmode]
        refine (if_neg hpos).trans ?_
        simp
    have hset (d : Counter) : (d.setCount (wrap32 c.count.toNat n)).maskedCount =
        mask16 (wrap32 c.count.toNat n) := by
      rw [maskedCount, setCount, toNat_ofNat hwrap]
    rw [hform, hcount, advanceTerminal]
    by_cases hrose : c.out = false ∧ c.count.toNat ≠ 0 ∧ c.count.toNat ≤ n
    · rw [if_pos hrose, if_neg hrose.2.1]
      by_cases hone : c.mode ≠ 0
      · -- the pulse of mode 1 ends on the element at zero
        rw [if_pos hone, if_pos ⟨hone, hrose.1, hrose.2.2⟩]
        rfl
      · rw [if_neg hone, if_neg fun h => hone h.1]
        exact hset _
    · rw [if_neg hrose, if_neg]
      · exact hset _
      · rintro ⟨-, hout, hdue⟩
        split_ifs at hdue with hzero
        · omega
        · exact hrose ⟨hout, hzero, hdue⟩

/-- The peeks of mode 2. -/
theorem peeked_rate (hmode : c.mode = 2) : Peeked c n := by
  have hv := c.count.toNat_lt
  obtain ⟨hone, hmax⟩ := c.effectiveReload_bounds
  obtain ⟨first, hfirst⟩ : ∃ first, (if 2 ≤ c.count.toNat then c.count.toNat else 1) = first :=
    ⟨_, rfl⟩
  obtain ⟨r, hr⟩ : ∃ r, c.effectiveReload.toNat = r := ⟨_, rfl⟩
  have hlevel := countingOutAfter_rate c.count.toNat c.effectiveReload.toNat c.out hpos hfirst
  rw [← hmode, hr] at hlevel
  have hcount : countingCountAfter c.mode c.count c.effectiveReload c.out n =
      if n < first then mask16 (c.count.toNat - n) else mask16 (r - (n - first) % r) := by
    rw [hmode, ← hr, ← hfirst]
    exact if_neg hpos
  rw [hr] at hone hmax
  by_cases hbefore : n < first
  · have htwo : 2 ≤ c.count.toNat := by
      by_contra hsmall
      rw [if_neg hsmall] at hfirst
      omega
    rw [if_pos htwo] at hfirst
    have hform := rate_down hstate hgate hbcd hmode htwo (n := n) (by omega)
    constructor
    · rw [hr, hlevel, if_pos hbefore, after, hform, showing_out]
      exact if_congr (by omega) rfl rfl
    · rw [hcount, if_pos hbefore, after, hform, maskedCount_showing _ (by omega)]
  · obtain ⟨k, rfl⟩ : ∃ k, n = first + k := ⟨n - first, by omega⟩
    rw [if_neg hbefore, Nat.add_sub_cancel_left] at hlevel hcount
    by_cases hillegal : r ≤ 1
    · have hr1 : r = 1 := by omega
      have hform := rate_illegal hstate hgate hbcd hmode hr hfirst hr1 k
      constructor
      · rw [hr, hlevel, if_pos hillegal, after, hform, showing_out]
      · rw [hcount, after, hform, maskedCount_showing _ (by decide), hr1, Nat.mod_one]
    · have hform := rate_after hstate hgate hbcd hmode hr hfirst (by omega) k
      have hphase := Nat.mod_lt k (show 0 < r by omega)
      constructor
      · rw [hr, hlevel, if_neg hillegal, after, hform, showing_out, decide_eq_decide]
        omega
      · rw [hcount, after, hform, maskedCount_showing _ (by omega)]

/-- The peeks of mode 3. -/
theorem peeked_square (hmode : c.mode = 3) : Peeked c n := by
  have hv := c.count.toNat_lt
  obtain ⟨hone, hmax⟩ := c.effectiveReload_bounds
  obtain ⟨r, hr⟩ : ∃ r, c.effectiveReload.toNat = r := ⟨_, rfl⟩
  obtain ⟨half, hhalf⟩ : ∃ half, mode3Half c.count.toNat c.out = half := ⟨_, rfl⟩
  have hlevel := countingOutAfter_square c.count.toNat c.effectiveReload.toNat c.out hpos hhalf
  rw [← hmode, hr] at hlevel
  have hcount : countingCountAfter c.mode c.count c.effectiveReload c.out n =
      if n < half then mask16 (mode3ValueInHalf c.count.toNat c.out n)
      else if r ≤ 1 then mask16 r
      else if (n - half) % r < mode3Half r (!c.out) then
        mask16 (mode3ValueInHalf r (!c.out) ((n - half) % r))
      else mask16 (mode3ValueInHalf r c.out ((n - half) % r - mode3Half r (!c.out))) := by
    rw [hmode, ← hr, ← hhalf]
    exact if_neg hpos
  rw [hr] at hone hmax
  by_cases hbefore : n < half
  · have hform := half_down hstate hgate hbcd hmode (hhalf ▸ hbefore)
    have hle := mode3Value_le c.count.toNat c.out n
    constructor
    · rw [hr, hlevel, if_pos hbefore, after, hform, showing_out]
    · rw [hcount, if_pos hbefore, after, hform, maskedCount_showing _ (by omega)]
  · obtain ⟨k, rfl⟩ : ∃ k, n = half + k := ⟨n - half, by omega⟩
    rw [if_neg hbefore, Nat.add_sub_cancel_left] at hlevel hcount
    by_cases hillegal : r ≤ 1
    · have hr1 : r = 1 := by omega
      have hform := square_illegal hstate hgate hbcd hmode hr hhalf hr1 k
      constructor
      · rw [hr, hlevel, if_pos hillegal, after, hform, showing_out]
      · rw [hcount, if_pos hillegal, after, hform, maskedCount_showing _ (by decide), hr1]
    · have hform := square_after hstate hgate hbcd hmode hr hhalf (by omega) k
      have hle (o : Bool) (m : ℕ) := mode3Value_le r o m
      constructor
      · rw [hr, hlevel, if_neg hillegal, after, hform, squareAt_out, Bool.not_not]
      · rw [hcount, if_neg hillegal, after, hform, squareAt]
        split_ifs with hfirst
        · rw [maskedCount_showing _ (by have := hle (!c.out) (k % r); omega)]
        · rw [maskedCount_showing _
            (by have := hle (!!c.out) (k % r - mode3Half r (!c.out)); omega), Bool.not_not]

/-- The peeks of modes 4 and 5. -/
theorem peeked_strobe (hn : n < 2 ^ 32) (hmode : c.mode = 4 ∨ c.mode = 5) : Peeked c n := by
  have hv := c.count.toNat_lt
  have hwrap := wrap32_lt c.count.toNat n
  have hform : c.after n = (c.advanceStrobe n).1 := by
    rw [after_eq_advanceCounting hstate hbcd (by omega) hn, advanceCounting_strobe hgate hpos hmode]
  have hlevel := countingOutAfter_strobe c.count.toNat c.effectiveReload.toNat c.out hpos hmode
  have hcount : countingCountAfter c.mode c.count c.effectiveReload c.out n =
      if c.out = false then mask16 c.count.toNat
      else if (if c.count.toNat = 0 then 2 ^ 32 else c.count.toNat) ≤ n then 0
      else mask16 (wrap32 c.count.toNat n) := by
    rcases hmode with hmode | hmode <;> rw [hmode] <;> exact if_neg hpos
  cases hout : c.out with
  | false =>
    rw [hout, if_pos rfl] at hlevel hcount
    rw [advanceStrobe_low hout] at hform
    constructor
    · rw [hout, hlevel, hform]
    · rw [hout, hcount, hform]
      rfl
  | true =>
    rw [hout, if_neg (by decide)] at hlevel hcount
    constructor
    · rw [hout, hlevel, hform, advanceStrobe_out hout]
      by_cases hzero : c.count.toNat = 0
      · simp [hzero]
      · simp [hzero]
    · rw [hout, hcount, hform, advanceStrobe, if_neg (by rw [hout]; decide)]
      by_cases hzero : c.count.toNat = 0
      · rw [if_pos hzero, if_pos hzero, if_neg (by omega), maskedCount, setCount, toNat_ofNat hwrap]
      · rw [if_neg hzero, if_neg hzero]
        by_cases hdue : c.count.toNat ≤ n
        · rw [if_pos hdue]
          by_cases hat : n ≤ c.count.toNat
          · have hend : c.count.toNat - n = 0 := by omega
            rw [if_pos hat, hend]
            rfl
          · rw [if_neg hat]
            rfl
        · rw [if_neg hdue, if_pos (by omega), wrap32_eq (by omega) hv, maskedCount, setCount,
            toNat_ofNat (by omega)]

end

/-- The peeks of a running count. -/
theorem peeked (hn : n < 2 ^ 32) : Peeked c n := by
  by_cases hpos : n = 0
  · rw [hpos]
    constructor
    · exact (if_pos rfl).symm
    · rfl
  obtain hmode | hmode | hmode | hmode | ⟨k, hmode⟩ := c.mode_cases
  · exact peeked_terminal hstate hgate hbcd hpos hn hmode
  · exact peeked_rate hstate hgate hbcd hpos hmode
  · exact peeked_square hstate hgate hbcd hpos hmode
  · exact peeked_strobe hstate hgate hbcd hpos hn hmode
  · have hform : c.after n = c := by
      rw [after_eq_advanceCounting hstate hbcd (by omega) hn,
        advanceCounting_modeless hgate hpos hmode]
    constructor
    · rw [hform, hmode]
      exact (if_neg hpos).symm
    · rw [hform, hmode]
      exact (if_neg hpos).symm

end Counting

theorem after_idle (hstate : c.state = .inactive ∨ c.state = .waitGate) (n : ℕ) : c.after n = c := by
  rw [after, run_idle hstate]

theorem after_load (hstate : c.state = .loadDelay) (n : ℕ) : c.after (n + 1) = c.load.after n := by
  rw [after, run_load hstate, after]

theorem after_paused (hstate : c.state = .counting) (hgate : c.gate = false) (n : ℕ) :
    c.after (n + 1) = c.pause := by
  rw [after, run_paused hstate hgate]

theorem pause_out (c : Counter) : c.pause.out = c.gateLowOut true := by
  unfold pause gateLowOut
  simp

theorem gateLowOut_false (c : Counter) : c.gateLowOut false = c.out := by
  unfold gateLowOut
  simp

/-- The OUT of a counter is told ahead. -/
theorem outAfter_eq (hbcd : c.bcd = false) (hn : n < 2 ^ 32) :
    c.outAfter n = some (c.after n).out := by
  unfold outAfter
  rw [hbcd, if_neg (by decide)]
  cases hstate : c.state with
  | inactive => rw [after_idle (.inl hstate)]
  | waitGate => rw [after_idle (.inr hstate)]
  | loadDelay =>
    dsimp only
    cases hgate : c.gate with
    | false =>
      rw [if_pos rfl]
      match n with
      | 0 => exact congrArg some c.gateLowOut_false
      | 1 =>
        rw [after_load hstate]
        exact congrArg some c.gateLowOut_false
      | m + 2 =>
        rw [after_load hstate, after_paused (c := c.load) rfl hgate, pause_out,
          decide_eq_true (show 2 ≤ m + 2 by omega)]
        rfl
    | true =>
      rw [if_neg (by decide)]
      cases n with
      | zero => rfl
      | succ m =>
        rw [if_neg (Nat.succ_ne_zero m), after_load hstate,
          (peeked (c := c.load) rfl hgate hbcd (show m < 2 ^ 32 by omega)).out]
        rfl
  | counting =>
    dsimp only
    cases hgate : c.gate with
    | false =>
      rw [if_pos rfl]
      cases n with
      | zero => exact congrArg some c.gateLowOut_false
      | succ m =>
        rw [after_paused hstate hgate, pause_out, decide_eq_true (show 1 ≤ m + 1 by omega)]
    | true => rw [if_neg (by decide), (peeked hstate hgate hbcd hn).out]

/-- The count of a counter is told ahead. -/
theorem countAfter_eq (hbcd : c.bcd = false) (hn : n < 2 ^ 32) :
    c.countAfter n = some (c.after n).maskedCount := by
  unfold countAfter
  rw [hbcd, if_neg (by decide)]
  cases hstate : c.state with
  | inactive => rw [after_idle (.inl hstate)]
  | waitGate => rw [after_idle (.inr hstate)]
  | loadDelay =>
    dsimp only
    cases n with
    | zero => rfl
    | succ m =>
      rw [if_neg (Nat.succ_ne_zero m), after_load hstate]
      cases hgate : c.gate with
      | false =>
        rw [if_pos rfl]
        -- the load is made under a low GATE too
        cases m with
        | zero => rfl
        | succ k =>
          rw [after_paused (c := c.load) rfl hgate]
          rfl
      | true =>
        rw [if_neg (by decide), (peeked (c := c.load) rfl hgate hbcd (show m < 2 ^ 32 by omega)).count]
        rfl
  | counting =>
    dsimp only
    cases hgate : c.gate with
    | false =>
      rw [if_pos rfl]
      cases n with
      | zero => rfl
      | succ m =>
        rw [after_paused hstate hgate]
        rfl
    | true => rw [if_neg (by decide), (peeked hstate hgate hbcd hn).count]

/-- A clock of counting moves the element and OUT, and may end the count. -/
theorem stepCounting_frame (c : Counter) : ∃ count out state, c.stepCounting.1 =
    { c with count, out, state } ∧ (state = c.state ∨ state = .inactive) := by
  have hsame (count : UInt32) (out : Bool) :
      ∃ count' out' state, { c with count, out } = { c with count := count', out := out', state } ∧
        (state = c.state ∨ state = .inactive) := ⟨count, out, c.state, rfl, .inl rfl⟩
  have hterminal : ∃ count out state, c.stepTerminal.1 = { c with count, out, state } ∧
      (state = c.state ∨ state = .inactive) := by
    unfold stepTerminal
    dsimp only
    split_ifs
    · exact ⟨_, _, _, rfl, .inr rfl⟩
    · exact ⟨_, _, _, rfl, .inl rfl⟩
    · exact hsame _ _
  have hstrobe : ∃ count out state, c.stepStrobe.1 = { c with count, out, state } ∧
      (state = c.state ∨ state = .inactive) := by
    unfold stepStrobe
    split_ifs
    · exact hsame _ _
    · exact ⟨_, _, _, rfl, .inr rfl⟩
  unfold stepCounting
  split
  · exact hsame c.count _
  · split
    · exact hterminal
    · exact hterminal
    · unfold stepRate
      split_ifs <;> exact hsame _ _
    · unfold stepSquare
      split_ifs <;> exact hsame _ _
    · exact hstrobe
    · exact hstrobe
    · exact hsame c.count c.out

/-- A clock ends the count or loads it, and asks for no other load. -/
theorem step_frame (c : Counter) : ∃ count out state nullCount,
    c.step.1 = { c with count, out, state, nullCount } ∧ state ≠ .loadDelay ∧
      (c.state ≠ .loadDelay → nullCount = c.nullCount) := by
  unfold step
  cases hstate : c.state with
  | inactive | waitGate => exact ⟨c.count, c.out, c.state, c.nullCount, rfl, by simp [hstate], fun _ => rfl⟩
  | loadDelay => exact ⟨_, _, _, _, rfl, CounterState.noConfusion, fun h => absurd rfl h⟩
  | counting =>
    obtain ⟨count, out, state, hform, hnext⟩ := c.stepCounting_frame
    dsimp only
    rw [hform]
    refine ⟨count, out, state, c.nullCount, rfl, ?_, fun _ => rfl⟩
    rcases hnext with rfl | rfl
    · rw [hstate]
      decide
    · decide

/-- The null-count flag of a counter is told ahead. -/
theorem nullCountAfter_eq (c : Counter) (n : ℕ) : c.nullCountAfter n = (c.after n).nullCount := by
  have hkept {d : Counter} (hd : d.state ≠ .loadDelay) (m : ℕ) :
      (d.after m).nullCount = d.nullCount ∧ (d.after m).state ≠ .loadDelay := by
    induction m with
    | zero => exact ⟨rfl, hd⟩
    | succ m ih =>
      obtain ⟨_, _, _, _, hform, hnext, hsame⟩ := (d.after m).step_frame
      rw [after_succ, hform]
      exact ⟨(hsame ih.2).trans ih.1, hnext⟩
  unfold nullCountAfter
  cases hstate : c.state with
  | inactive => exact (hkept (by rw [hstate]; decide) n).1.symm
  | waitGate => exact (hkept (by rw [hstate]; decide) n).1.symm
  | counting => exact (hkept (by rw [hstate]; decide) n).1.symm
  | loadDelay =>
    cases n with
    | zero => rfl
    | succ m =>
      rw [after_load hstate, (hkept (d := c.load) CounterState.noConfusion m).1]
      exact if_pos (by omega)

end IzarraVM.Timer.Counter
