import IzarraVM.PitAdvance

/-! The transitions of OUT over a span of clocks, and the advance of the whole chip. -/
namespace IzarraVM.Timer.Counter

open ClockTrace

variable {c : Counter} {level : ℕ → Bool} {clocks offset : ℕ}

section Terminal

theorem advanceTerminal_out (c : Counter) (t : ℕ) : (c.advanceTerminal t).1.out =
    if c.out = false ∧ c.count.toNat ≠ 0 ∧ c.count.toNat ≤ t then true else c.out := by
  unfold advanceTerminal
  -- the value of the element has no part in it
  obtain ⟨count, hcount⟩ : ∃ count, wrap32 c.count.toNat t = count := ⟨_, rfl⟩
  simp only [hcount]
  clear hcount
  split
  · split <;> rfl
  · rfl

theorem terminal_transitions (hlevel : ∀ t ≤ clocks, level (offset + t) = (c.advanceTerminal t).1.out) :
    changes level (offset + clocks) = changes level offset ++
      if c.out = false ∧ c.count.toNat ≠ 0 ∧ c.count.toNat ≤ clocks then
        [(offset + c.count.toNat, true)] else [] := by
  simp only [advanceTerminal_out] at hlevel
  by_cases hrise : c.out = false ∧ c.count.toNat ≠ 0
  · obtain ⟨hout, hne⟩ := hrise
    simp only [hout, hne, ne_eq, not_false_eq_true, true_and]
    apply changes_step_from (Nat.pos_of_ne_zero hne)
    intro t hle
    rw [hlevel t hle, hout]
    simp only [hne, ne_eq, not_false_eq_true, true_and]
    split_ifs with hge
    · exact (decide_eq_true hge).symm
    · exact (decide_eq_false hge).symm
  · -- OUT is high, or the element has no terminal count ahead
    rw [if_neg (fun h => hrise ⟨h.1, h.2.1⟩), List.append_nil]
    apply changes_of_hold_from (a := 0) (l := c.out) (Nat.zero_le _)
    intro t _ hle
    rw [hlevel t hle]
    exact if_neg fun h => hrise ⟨h.1, h.2.1⟩

end Terminal

section Rate

variable {r high : ℕ}

/-- A period of mode 2, seen from its reload. -/
theorem rateLevel_period (hr : 2 ≤ r)
    (hlevel : ∀ m, high + m ≤ clocks → level (offset + (high + m)) = decide (m % r ≠ r - 1)) :
    (∀ t, high ≤ t → t < high + r - 1 → t ≤ clocks → level (offset + t) = true) ∧
      (high + r - 1 ≤ clocks → level (offset + (high + r - 1)) = false) ∧
      ∀ m, high + r + m ≤ clocks → level (offset + (high + r + m)) = decide (m % r ≠ r - 1) := by
  refine ⟨?_, ?_, ?_⟩
  · intro t ha hb hle
    obtain ⟨m, rfl⟩ := Nat.exists_eq_add_of_le ha
    rw [hlevel m hle, Nat.mod_eq_of_lt (by omega)]
    exact decide_eq_true (by omega)
  · intro hle
    rw [show high + r - 1 = high + (r - 1) by omega, hlevel (r - 1) (by omega),
      Nat.mod_eq_of_lt (by omega), decide_eq_false (by simp)]
  · intro m hle
    rw [Nat.add_assoc, hlevel (r + m) (by omega), Nat.add_mod_left]

/-- The falls and rises of mode 2: the level is `o` up to the next fall, and has the period `r`
from the rise after it on. -/
theorem rate_transitions (hr : 2 ≤ r) (fuel : ℕ) : ∀ {start low high : ℕ} {o : Bool},
    start < low → low + 1 = high → start ≤ clocks → clocks < start + fuel →
    (∀ t, start ≤ t → t < low → t ≤ clocks → level (offset + t) = o) →
    (low ≤ clocks → level (offset + low) = false) →
    (∀ m, high + m ≤ clocks → level (offset + (high + m)) = decide (m % r ≠ r - 1)) →
    changes level (offset + clocks) = changes level (offset + start) ++
      rateTransitions r clocks offset fuel o low high := by
  induction fuel with
  | zero =>
    intro start low high o hlow hhigh hstart hfuel
    omega
  | succ fuel ih =>
    intro start low high o hlow hhigh hstart hfuel hhold hlows hlevel
    unfold rateTransitions
    by_cases hshort : clocks < low
    · -- the span ends before the next fall
      rw [if_pos ⟨by omega, hshort⟩, List.append_nil]
      exact changes_of_hold_from hstart fun t ha hb => hhold t ha (by omega) hb
    · rw [if_neg (fun h => hshort h.2)]
      simp only [if_pos (show 1 ≤ low by omega)]
      have hfall : changes level (offset + low) = changes level (offset + start) ++
          if 1 ≤ low ∧ o = true then [(offset + low, false)] else [] := by
        cases o with
        | true =>
          rw [if_pos ⟨by omega, rfl⟩]
          exact changes_of_change_from hlow (fun t ha hb => hhold t ha hb (by omega))
            (hlows (by omega))
        | false =>
          rw [if_neg (by simp), List.append_nil]
          apply changes_of_hold_from (l := false) (by omega)
          intro t ha hb
          rcases Nat.lt_or_eq_of_le hb with hlt | rfl
          · exact hhold t ha hlt (by omega)
          · exact hlows (by omega)
      by_cases hlast : clocks < high
      · -- it ends on the fall
        rw [if_pos hlast, show clocks = low by omega, hfall]
      · rw [if_neg hlast, if_neg (show ¬ false = true by decide)]
        have hnext := hlevel 0 (by omega)
        rw [Nat.zero_mod, decide_eq_true (show 0 ≠ r - 1 by omega), Nat.add_zero] at hnext
        have hrise := changes_rise_from hhigh (hlows (by omega)) hnext
        obtain ⟨htop, hbottom, hperiods⟩ := rateLevel_period hr hlevel
        rw [ih (by omega) (by omega) (by omega) (by omega) htop hbottom hperiods, hrise, hfall]
        simp only [List.append_assoc]

/-- Mode 2 from any count: the way down to the first reload, and then the periods. -/
theorem rate_all_transitions (hstate : c.state = .counting) (hgate : c.gate = true)
    (hbcd : c.bcd = false) (hmode : c.mode = 2) (hlegal : 2 ≤ c.effectiveReload.toNat)
    (hclocks : 0 < clocks) (hlevel : ∀ t ≤ clocks, level (offset + t) = (run step c t).1.out) :
    changes level (offset + clocks) = changes level offset ++
      if 2 ≤ c.count.toNat then
        rateTransitions c.effectiveReload.toNat clocks offset (clocks + 1) c.out (c.count.toNat - 1)
          c.count.toNat
      else rateTransitions c.effectiveReload.toNat clocks offset (clocks + 1) c.out 0 1 := by
  generalize hr : c.effectiveReload.toNat = r at hlegal
  have hafter {first : ℕ} (hfirst : (if 2 ≤ c.count.toNat then c.count.toNat else 1) = first) (m : ℕ)
      (hm : first + m ≤ clocks) : level (offset + (first + m)) = decide (m % r ≠ r - 1) := by
    rw [hlevel _ hm, rate_after hstate hgate hbcd hmode hr hfirst hlegal, showing_out]
  split
  · rename_i htwo
    have hdown {t : ℕ} (ht : t < c.count.toNat) (hle : t ≤ clocks) :
        level (offset + t) = if c.count.toNat - t = 1 then false else c.out := by
      rw [hlevel t hle, rate_down hstate hgate hbcd hmode htwo ht, showing_out]
    refine rate_transitions hlegal (clocks + 1) (by omega) (by omega) (Nat.zero_le _)
      (by omega) ?_ ?_ (hafter (if_pos htwo))
    · intro t _ ht hle
      rw [hdown (by omega) hle, if_neg (by omega)]
    · intro hle
      rw [hdown (by omega) hle, if_pos (by omega)]
  · rename_i hsmall
    have hfirst : level (offset + 1) = true := by
      have hhigh := hafter (if_neg hsmall) 0 (by omega)
      rw [Nat.zero_mod, decide_eq_true (show 0 ≠ r - 1 by omega)] at hhigh
      exact hhigh
    have hrise : changes level (offset + 1) = changes level offset ++
        if c.out = true then [] else [(offset + 1, true)] := by
      rw [changes, hfirst, show level offset = c.out from hlevel 0 (Nat.zero_le _)]
      cases c.out <;> rfl
    unfold rateTransitions
    rw [if_neg (by omega)]
    simp only [if_neg (show ¬ 1 ≤ 0 by omega)]
    obtain ⟨htop, hbottom, hperiods⟩ := rateLevel_period hlegal (hafter (if_neg hsmall))
    rw [if_neg (by omega), if_neg (by omega), rate_transitions hlegal clocks (by omega) (by omega)
      hclocks (by omega) htop hbottom hperiods, hrise]
    simp only [List.append_assoc, List.nil_append]

end Rate

section Square

def squareLevel (r : ℕ) (l : Bool) (m : ℕ) : Bool := if m % r < mode3Half r l then l else !l

/-- Seen from the next toggle the period begins with its other half. -/
theorem squareLevel_shift {r : ℕ} (hr : 2 ≤ r) (l : Bool) (m : ℕ) :
    squareLevel r l (mode3Half r l + m) = squareLevel r (!l) m := by
  have hadd := mode3Half_add hr l
  have hp := Nat.mod_lt m (show 0 < r by omega)
  have hmod : (mode3Half r l + m) % r =
      if m % r < mode3Half r (!l) then mode3Half r l + m % r else m % r - mode3Half r (!l) := by
    conv_lhs => rw [← Nat.div_add_mod m r]
    rw [Nat.add_left_comm, Nat.mul_add_mod]
    split
    · exact Nat.mod_eq_of_lt (by omega)
    · rw [Nat.mod_eq_sub_mod (by omega), Nat.mod_eq_of_lt (by omega)]
      omega
  unfold squareLevel
  rw [hmod, Bool.not_not]
  split
  · exact if_neg (by omega)
  · exact if_pos (by omega)

theorem squareLevel_of_lt {r : ℕ} (hr : 2 ≤ r) {l : Bool} {m : ℕ} (hm : m < mode3Half r l) :
    squareLevel r l m = l := by
  have hadd := mode3Half_add hr l
  rw [squareLevel, Nat.mod_eq_of_lt (by omega)]
  exact if_pos hm

/-- The toggles of mode 3: the level is `l` up to the toggle at `tick`, and periodic from it on. -/
theorem square_transitions {r : ℕ} (hr : 2 ≤ r) (fuel : ℕ) : ∀ {start tick : ℕ} {l : Bool},
    start < tick → start ≤ clocks → clocks < start + fuel →
    (∀ t, start ≤ t → t < tick → t ≤ clocks → level (offset + t) = l) →
    (∀ m, tick + m ≤ clocks → level (offset + (tick + m)) = squareLevel r (!l) m) →
    changes level (offset + clocks) = changes level (offset + start) ++
      squareTransitions r clocks offset fuel l tick := by
  induction fuel with
  | zero =>
    intro start tick l htick hstart hfuel
    omega
  | succ fuel ih =>
    intro start tick l htick hstart hfuel hhold hlevel
    have hpos := mode3Half_pos r (!l)
    unfold squareTransitions
    by_cases hin : tick ≤ clocks
    · have htoggle : changes level (offset + tick) =
          changes level (offset + start) ++ [(offset + tick, !l)] := by
        apply changes_of_change_from htick
        · exact fun t ha hb => hhold t ha hb (by omega)
        · have hfirst := hlevel 0 hin
          rw [squareLevel_of_lt hr hpos] at hfirst
          exact hfirst
      rw [if_pos hin, ih (l := !l) (Nat.lt_add_of_pos_right hpos) hin (by omega), htoggle,
        List.append_assoc, List.singleton_append]
      · intro t ha hb hle
        obtain ⟨m, rfl⟩ := Nat.exists_eq_add_of_le ha
        rw [hlevel m hle, squareLevel_of_lt hr (by omega)]
      · intro m hm
        rw [Nat.add_assoc, hlevel (mode3Half r (!l) + m) (by omega), squareLevel_shift hr]
    · rw [if_neg hin, List.append_nil]
      exact changes_of_hold_from hstart fun t ha hb => hhold t ha (by omega) hb

theorem squareAt_out (c : Counter) (r : ℕ) (l : Bool) (p : ℕ) :
    (c.squareAt r l p).out = if p < mode3Half r l then l else !l := by
  unfold squareAt
  split <;> rfl

/-- Mode 3 from any count: the half-period under way, and then the periods. -/
theorem square_all_transitions (hstate : c.state = .counting) (hgate : c.gate = true)
    (hbcd : c.bcd = false) (hmode : c.mode = 3) (hlegal : 2 ≤ c.effectiveReload.toNat)
    (hlevel : ∀ t ≤ clocks, level (offset + t) = (run step c t).1.out) :
    changes level (offset + clocks) = changes level offset ++
      squareTransitions c.effectiveReload.toNat clocks offset (clocks + 1) c.out
        (mode3Half c.count.toNat c.out) := by
  generalize hr : c.effectiveReload.toNat = r at hlegal
  apply square_transitions hlegal (clocks + 1) (mode3Half_pos _ _) (Nat.zero_le _) (by omega)
  · intro t _ ht hle
    rw [hlevel t hle, half_down hstate hgate hbcd hmode ht, showing_out]
  · intro m hm
    rw [hlevel _ hm, square_after hstate hgate hbcd hmode hr rfl hlegal, squareAt_out]
    rfl

end Square

section Strobe

theorem advanceStrobe_out (hout : c.out = true) (t : ℕ) : (c.advanceStrobe t).1.out =
    !decide (c.count.toNat ≠ 0 ∧ t = c.count.toNat) := by
  unfold advanceStrobe
  obtain ⟨count, hcount⟩ : ∃ count, wrap32 c.count.toNat t = count := ⟨_, rfl⟩
  simp only [hcount]
  clear hcount
  rw [if_neg (by rw [hout]; decide)]
  by_cases hzero : c.count.toNat = 0
  · rw [if_pos hzero, decide_eq_false (fun h => h.1 hzero)]
    exact hout
  · rw [if_neg hzero]
    by_cases hat : t = c.count.toNat
    · rw [if_pos (Nat.le_of_eq hat), decide_eq_true ⟨hzero, hat⟩]
      exact if_pos hat
    · rw [decide_eq_false (fun h => hat h.2)]
      simp only [if_neg hat]
      split <;> exact hout

/-- Modes 4 and 5 with OUT high: the strobe, and the clock after it. -/
theorem strobe_transitions (hout : c.out = true)
    (hlevel : ∀ t ≤ clocks, level (offset + t) = (c.advanceStrobe t).1.out) :
    changes level (offset + clocks) = changes level offset ++
      if c.count.toNat ≠ 0 then
        (if c.count.toNat ≤ clocks then [(offset + c.count.toNat, false)] else []) ++
          if c.count.toNat < clocks then [(offset + c.count.toNat + 1, true)] else []
      else [] := by
  simp only [advanceStrobe_out hout] at hlevel
  split
  · rename_i hne
    apply changes_pulse_from (Nat.pos_of_ne_zero hne)
    intro t hle
    rw [hlevel t hle]
    by_cases hat : t = c.count.toNat
    · rw [decide_eq_true ⟨hne, hat⟩, decide_eq_false (not_not.mpr hat)]
      rfl
    · rw [decide_eq_false (fun h => hat h.2), decide_eq_true hat]
      rfl
  · rename_i hzero
    rw [List.append_nil]
    apply changes_of_hold_from (a := 0) (l := true) (Nat.zero_le _)
    intro t _ hle
    rw [hlevel t hle, decide_eq_false (fun h => hzero h.1)]
    rfl

end Strobe

/-- A level that is forced high on the first clock, and holds. -/
theorem forced_transitions (hclocks : 0 < clocks) (hzero : level offset = c.out)
    (hhigh : ∀ t, 0 < t → t ≤ clocks → level (offset + t) = true) :
    changes level (offset + clocks) = changes level offset ++
      if c.out = false then [(offset + 1, true)] else [] := by
  have hfirst : changes level (offset + 1) = changes level offset ++
      if c.out = false then [(offset + 1, true)] else [] := by
    rw [changes, hhigh 1 (by decide) hclocks, hzero]
    cases c.out <;> rfl
  rw [← hfirst]
  exact changes_of_hold_from hclocks hhigh

/-- The transitions of counting under a low GATE. -/
theorem paused_transitions (hclocks : 0 < clocks) (hzero : level offset = c.out)
    (hlevel : ∀ t, 0 < t → t ≤ clocks → level (offset + t) = c.pause.out) :
    changes level (offset + clocks) = changes level offset ++
      if (c.mode = 2 ∨ c.mode = 3) ∧ c.out = false then [(offset + 1, true)] else [] := by
  by_cases hmode : c.mode = 2 ∨ c.mode = 3
  · rw [forced_transitions hclocks hzero]
    · simp only [hmode, true_and]
    · intro t hpos hle
      rw [hlevel t hpos hle]
      exact if_pos hmode
  · rw [if_neg (fun h => hmode h.1), List.append_nil]
    apply changes_of_hold_from (a := 0) (l := c.out) (Nat.zero_le _)
    intro t _ hb
    rcases Nat.eq_zero_or_pos t with rfl | hpos
    · exact hzero
    · rw [hlevel t hpos (by omega)]
      exact if_neg hmode

theorem countingTransitions_eq (hstate : c.state = .counting) (hbcd : c.bcd = false)
    (hlegal : c.mode = 2 ∨ c.mode = 3 → 2 ≤ c.effectiveReload.toNat) (hclocks : clocks < 2 ^ 32)
    (hlevel : ∀ t ≤ clocks, level (offset + t) = (run step c t).1.out) :
    changes level (offset + clocks) =
      changes level offset ++ c.countingTransitions c.count.toNat clocks offset := by
  have hzero : level offset = c.out := hlevel 0 (Nat.zero_le _)
  unfold countingTransitions
  by_cases hnone : clocks = 0
  · rw [if_pos hnone, hnone, List.append_nil]
    rfl
  rw [if_neg hnone]
  cases hgate : c.gate with
  | false =>
    rw [if_pos rfl]
    apply paused_transitions (by omega) hzero
    intro t hpos hle
    obtain ⟨m, rfl⟩ := Nat.exists_eq_succ_of_ne_zero hpos.ne'
    rw [hlevel _ hle, run_paused hstate hgate]
  | true =>
    rw [if_neg (by decide)]
    have hterminal (hmode : c.mode = 0 ∨ c.mode = 1) (t : ℕ) (hle : t ≤ clocks) :
        level (offset + t) = (c.advanceTerminal t).1.out := by
      rw [hlevel t hle, advanceTerminal_eq_run hstate hgate hbcd hmode (by omega)]
    have hstrobe (hmode : c.mode = 4 ∨ c.mode = 5) :
        changes level (offset + clocks) = changes level offset ++
          if c.out = false then [(offset + 1, true)]
          else if c.count.toNat ≠ 0 then
            (if c.count.toNat ≤ clocks then [(offset + c.count.toNat, false)] else []) ++
              if c.count.toNat < clocks then [(offset + c.count.toNat + 1, true)] else []
          else [] := by
      have hpos (t : ℕ) (ht : t ≠ 0) (hle : t ≤ clocks) :
          level (offset + t) = (c.advanceStrobe t).1.out := by
        rw [hlevel t hle, advanceStrobe_eq_run hstate hgate hbcd hmode ht (by omega)]
      cases hout : c.out with
      | false =>
        rw [forced_transitions (c := c) (by omega) hzero, hout]
        · rfl
        · intro t ht hle
          rw [hpos t ht.ne' hle, advanceStrobe_low hout]
      | true =>
        rw [if_neg (by decide)]
        refine strobe_transitions hout fun t hle => ?_
        by_cases ht : t = 0
        · rw [ht, advanceStrobe_zero hout]
          exact hzero
        · exact hpos t ht hle
    obtain (hmode | hmode) | hmode | hmode | (hmode | hmode) | ⟨k, hmode⟩ := c.mode_cases
    · rw [hmode]
      exact terminal_transitions (hterminal (.inl hmode))
    · rw [hmode]
      exact terminal_transitions (hterminal (.inr hmode))
    · rw [hmode]
      exact rate_all_transitions hstate hgate hbcd hmode (hlegal (.inl hmode)) (by omega) hlevel
    · rw [hmode]
      exact square_all_transitions hstate hgate hbcd hmode (hlegal (.inr hmode)) hlevel
    · rw [hmode]
      exact hstrobe (.inl hmode)
    · rw [hmode]
      exact hstrobe (.inr hmode)
    · rw [hmode]
      show _ = _ ++ []
      rw [List.append_nil]
      apply changes_of_hold_from (a := 0) (l := c.out) (Nat.zero_le _)
      intro t _ hle
      rw [hlevel t hle, run_modeless hstate hgate hmode]

/-- The transitions that are read off a counter are those that its clocks make. -/
theorem outTransitionsIn_eq (h : c.bulkDecline = none) (hclocks : clocks < 2 ^ 32) :
    c.outTransitionsIn clocks = changes (fun t => (run step c t).1.out) clocks := by
  obtain ⟨hbcd, hlegal⟩ := bulkDecline_none h
  obtain ⟨level, hlevel⟩ : ∃ level : ℕ → Bool, level = fun t => (run step c t).1.out := ⟨_, rfl⟩
  have hat (t : ℕ) : level t = (run step c t).1.out := congrFun hlevel t
  rw [← hlevel]
  unfold outTransitionsIn
  by_cases hnone : clocks = 0
  · rw [if_pos hnone, hnone]
    rfl
  rw [if_neg hnone]
  have hidle (hstate : c.state = .inactive ∨ c.state = .waitGate) : changes level clocks = [] := by
    apply changes_of_hold (l := c.out) (Nat.zero_le clocks)
    intro t _ _
    rw [hat, run_idle hstate]
  cases hstate : c.state with
  | inactive => exact (hidle (.inl hstate)).symm
  | waitGate => exact (hidle (.inr hstate)).symm
  | loadDelay =>
    obtain ⟨m, rfl⟩ := Nat.exists_eq_succ_of_ne_zero hnone
    have hload : changes level 1 = [] := by
      rw [changes, hat, hat, run_load hstate]
      exact if_pos rfl
    have hcount : changes level (1 + m) =
        changes level 1 ++ c.load.countingTransitions c.load.count.toNat m 1 := by
      apply countingTransitions_eq (c := c.load) rfl hbcd (hlegal (.inl hstate)) (by omega)
      intro t _
      rw [hat, Nat.add_comm, run_load hstate]
    rw [hload, List.nil_append, Nat.add_comm] at hcount
    exact hcount.symm
  | counting =>
    have hcount : changes level (0 + clocks) =
        changes level 0 ++ c.countingTransitions c.count.toNat clocks 0 := by
      apply countingTransitions_eq hstate hbcd (hlegal (.inr hstate)) hclocks
      intro t _
      rw [hat, Nat.zero_add]
    rw [Nat.zero_add] at hcount
    exact hcount.symm

end IzarraVM.Timer.Counter

namespace IzarraVM.Timer.Pit

open ClockTrace

variable {pit : Pit} {clocks : ℕ}

def after (pit : Pit) (n : ℕ) : Pit := ⟨pit.counters.map fun c : Counter => (run Counter.step c n).1⟩

theorem after_zero (pit : Pit) : pit.after 0 = pit := by
  show Pit.mk (pit.counters.map fun c => c) = pit
  rw [Vector.map_id']

theorem after_succ (pit : Pit) (n : ℕ) : pit.after (n + 1) = (pit.after n).step := by
  unfold after step
  rw [Vector.map_map]
  rfl

def seen (pit : Pit) (watchChannel : Option ℕ) (n : ℕ) : List (ℕ × Bool) :=
  match watchChannel with
  | none => []
  | some channel => changes (fun t => (pit.after t).channelOut channel) n

def looping (pit : Pit) (watchChannel : Option ℕ) (n : ℕ) : Looping where
  pit := pit.after n
  edges := UInt32.ofNat (run Counter.step pit.first n).2
  watched := watchChannel.map (pit.after n).channelOut
  transitions := pit.seen watchChannel n

theorem looping_tick (pit : Pit) (watchChannel : Option ℕ) (n : ℕ) :
    Looping.tick watchChannel (pit.looping watchChannel n) (n + 1) =
      pit.looping watchChannel (n + 1) := by
  have hzero : (pit.after n).first = (run Counter.step pit.first n).1 :=
    Vector.getElem_map ..
  have hedges : (if (pit.after n).first.step.2 then
        UInt32.ofNat (run Counter.step pit.first n).2 + 1
      else UInt32.ofNat (run Counter.step pit.first n).2) =
      UInt32.ofNat (run Counter.step pit.first (n + 1)).2 := by
    rw [hzero]
    show _ = UInt32.ofNat (_ + (run Counter.step pit.first n).1.step.2.toNat)
    cases (run Counter.step pit.first n).1.step.2 with
    | false => rfl
    | true =>
      rw [UInt32.ofNat_add]
      rfl
  unfold Looping.tick looping
  simp only [hedges, ← after_succ]
  cases watchChannel with
  | none => rfl
  | some channel =>
    unfold Looping.observe
    simp only [Option.map_some, ne_eq, Option.some.injEq, ite_not]
    split
    · rename_i hsame
      have hseen : pit.seen (some channel) (n + 1) = pit.seen (some channel) n := by
        show changes _ n ++ (if _ then [] else _) = changes _ n
        rw [if_pos hsame, List.append_nil]
      rw [hseen, hsame]
    · rename_i hchange
      have hseen : pit.seen (some channel) (n + 1) = pit.seen (some channel) n ++
          [(n + 1, (pit.after (n + 1)).channelOut channel)] := by
        show changes _ n ++ (if _ then [] else _) = changes _ n ++ _
        rw [if_neg hchange]
      rw [hseen]

theorem loop_eq (pit : Pit) (watchChannel : Option ℕ) (n : ℕ) :
    (List.range' 1 n).foldl (Looping.tick watchChannel) (pit.looping watchChannel 0) =
      pit.looping watchChannel n := by
  induction n with
  | zero => rfl
  | succ n ih =>
    rw [List.range'_concat, List.foldl_append, ih, Nat.one_mul, Nat.add_comm 1 n]
    exact looping_tick pit watchChannel n

/-- The per-clock loop clocks every counter on its own. -/
theorem loopAdvance_eq (pit : Pit) (watchChannel : Option ℕ) :
    pit.loopAdvance clocks watchChannel = ⟨pit.after clocks,
      UInt32.ofNat (run Counter.step pit.first clocks).2,
      pit.seen watchChannel clocks⟩ := by
  have hstart : pit.looping watchChannel 0 =
      { pit, edges := 0, watched := watchChannel.map pit.channelOut, transitions := [] } := by
    unfold looping
    rw [after_zero]
    congr 1
    cases watchChannel <;> rfl
  unfold loopAdvance
  simp only
  rw [← hstart, loop_eq]
  rfl

theorem bulkDecline_none (h : pit.bulkDecline clocks = none) :
    clocks < 2 ^ 32 ∧ ∀ c ∈ pit.counters, c.bulkDecline = none := by
  unfold bulkDecline at h
  split at h
  · cases h
  · rename_i hspan
    refine ⟨Nat.not_le.mp hspan, fun c hc => ?_⟩
    exact List.findSome?_eq_none_iff.mp h c (Vector.mem_toList_iff.mpr hc)

/-- What the observer sees of a channel is what its counter does. -/
theorem seen_of_counter {channel : ℕ} {c : Counter} (h : pit.counters[channel]? = some c) (n : ℕ) :
    pit.seen (some channel) n = changes (fun t => (run Counter.step c t).1.out) n := by
  apply changes_congr
  intro t _
  show (((pit.counters.map fun c : Counter => (run Counter.step c t).1)[channel]?).map (·.out)).getD false = _
  rw [Vector.getElem?_map, h]
  rfl

theorem seen_of_none {channel : ℕ} (h : pit.counters[channel]? = none) (n : ℕ) :
    pit.seen (some channel) n = [] := by
  refine changes_of_hold (l := false) (Nat.zero_le n) fun t _ _ => ?_
  show (((pit.counters.map fun c : Counter => (run Counter.step c t).1)[channel]?).map (·.out)).getD false = _
  rw [Vector.getElem?_map, h]
  rfl

/-- The analytic advance of the chip is its advance clock by clock. -/
theorem bulkAdvance_eq_loopAdvance (pit : Pit) (clocks : ℕ) (watchChannel : Option ℕ)
    (h : pit.bulkDecline clocks = none) :
    pit.bulkAdvance clocks watchChannel = pit.loopAdvance clocks watchChannel := by
  obtain ⟨hspan, hnone⟩ := bulkDecline_none h
  have hadvance : ∀ c ∈ pit.counters, c.advance clocks = run Counter.step c clocks :=
    fun c hc => Counter.advance_eq_run (hnone c hc) hspan
  have hfirst := hadvance pit.first (Vector.getElem_mem _)
  have hpit : (Pit.mk (pit.counters.map fun c : Counter => (c.advance clocks).1)) = pit.after clocks := by
    unfold after
    congr 1
    apply Vector.map_congr_left
    intro c hc
    rw [hadvance c hc]
  have hedges := run_edges_le Counter.step pit.first clocks
  have htransitions : ((watchChannel.bind (pit.counters[·]?)).map (·.outTransitionsIn clocks)).getD [] =
      pit.seen watchChannel clocks := by
    cases watchChannel with
    | none => rfl
    | some channel =>
      show ((pit.counters[channel]?).map (·.outTransitionsIn clocks)).getD [] = _
      cases hc : pit.counters[channel]? with
      | none =>
        rw [seen_of_none hc]
        rfl
      | some c =>
        have hmem : c ∈ pit.counters := Vector.mem_of_getElem? hc
        rw [seen_of_counter hc, ← Counter.outTransitionsIn_eq (hnone c hmem) hspan]
        rfl
  rw [loopAdvance_eq, bulkAdvance]
  simp only [hpit, htransitions, hfirst]
  rw [if_pos (by omega)]

/-- The analytic advance leaves the chip, counts the edges of channel 0 and reports the
transitions of the watched OUT as the loop over the clocks does, and so the chip ticks alike with
it on and off. -/
theorem bulk_advance_exact (pit : Pit) (clocks : ℕ) (watchChannel : Option ℕ)
    (h : pit.bulkDecline clocks = none) :
    pit.bulkAdvance clocks watchChannel = pit.loopAdvance clocks watchChannel ∧
      pit.tickWithObserver clocks watchChannel true =
        pit.tickWithObserver clocks watchChannel false := by
  have hequal := bulkAdvance_eq_loopAdvance pit clocks watchChannel h
  refine ⟨hequal, ?_⟩
  unfold tickWithObserver
  split
  · rfl
  · rw [if_pos ⟨rfl, h⟩, if_neg (by simp), hequal]

def programmed : Pit :=
  ⟨#v[{ Counter.powerOn with mode := 3, reload := 5, out := true, state := .loadDelay, nullCount := true },
    { Counter.powerOn with mode := 2, reload := 18, count := 7, out := true, state := .counting },
    Counter.powerOn]⟩

theorem programmed_advanced :
    programmed.bulkDecline 14 = none ∧
      (programmed.loopAdvance 14 (some 0)).edges = 2 ∧
      (programmed.loopAdvance 14 (some 0)).transitions =
        [(4, false), (6, true), (9, false), (11, true), (14, false)] := by
  have hnone : programmed.bulkDecline 14 = none := by decide +kernel
  refine ⟨hnone, ?_⟩
  rw [← (bulk_advance_exact programmed 14 (some 0) hnone).1]
  decide +kernel

end IzarraVM.Timer.Pit
