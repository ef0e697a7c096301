import IzarraVM.PitPeeks

/-! The first clock on which OUT rises, for every counter that can be reached. -/
namespace IzarraVM.Timer

namespace Counter

variable {c : Counter}

def RisesFirstAt (c : Counter) (n : ℕ) : Prop :=
  ∃ m, n = m + 1 ∧ (c.after m).out = false ∧ (c.after (m + 1)).out = true ∧
    ∀ t < m, ¬ ((c.after t).out = false ∧ (c.after (t + 1)).out = true)

/-- OUT is high up to some clock and low from there to the rise. -/
theorem risesFirstAt_of_levels {fall m : ℕ} (hle : fall ≤ m)
    (hhigh : ∀ t < fall, (c.after t).out = true)
    (hlow : ∀ t, fall ≤ t → t ≤ m → (c.after t).out = false)
    (hrise : (c.after (m + 1)).out = true) : RisesFirstAt c (m + 1) := by
  refine ⟨m, rfl, hlow m hle (Nat.le_refl m), hrise, ?_⟩
  rintro t ht ⟨hfalse, htrue⟩
  by_cases hbefore : t < fall
  · rw [hhigh t hbefore] at hfalse
    cases hfalse
  · rw [hlow (t + 1) (by omega) ht] at htrue
    cases htrue

theorem risesFirstAt_of_low {m : ℕ} (hlow : ∀ t ≤ m, (c.after t).out = false)
    (hrise : (c.after (m + 1)).out = true) : RisesFirstAt c (m + 1) :=
  risesFirstAt_of_levels (Nat.zero_le m) (fun t ht => absurd ht t.not_lt_zero)
    (fun t _ ht => hlow t ht) hrise

theorem risesFirstAt_one (hlow : c.out = false) (hrise : (c.after 1).out = true) : RisesFirstAt c 1 :=
  ⟨0, rfl, hlow, hrise, fun t ht => absurd ht t.not_lt_zero⟩

structure Sound (c : Counter) : Prop where
  rate : c.mode = 2 → c.bcd = false → c.out = false →
    c.state = .counting ∧ c.gate = true ∧ c.count = 1
  strobe : c.mode = 4 ∨ c.mode = 5 → c.bcd = false → c.state = .counting → c.out = true →
    1 ≤ c.count.toNat ∧ c.count.toNat ≤ 65536

section Counting

variable (hstate : c.state = .counting) (hgate : c.gate = true) (hbcd : c.bcd = false)

include hstate hgate hbcd

theorem level_eq {t : ℕ} (ht : t < 2 ^ 32) : (c.after t).out =
    countingOutAfter c.mode c.count.toNat c.effectiveReload.toNat c.out t :=
  (peeked hstate hgate hbcd ht).out

theorem rises_terminal (hmode : c.mode = 0 ∨ c.mode = 1) (hout : c.out = false)
    (hzero : c.count.toNat ≠ 0) : RisesFirstAt c c.count.toNat := by
  have hv := c.count.toNat_lt
  have hlevel {t : ℕ} (ht : t < 2 ^ 32) : (c.after t).out = decide (c.count.toNat ≤ t) := by
    by_cases hpos : t = 0
    · rw [hpos, after_zero, hout, decide_eq_false (by omega)]
    · rw [level_eq hstate hgate hbcd ht, countingOutAfter_terminal _ _ _ hpos hmode, hout]
      simp [hzero]
  obtain ⟨m, hm⟩ : ∃ m, c.count.toNat = m + 1 := ⟨c.count.toNat - 1, by omega⟩
  rw [hm]
  apply risesFirstAt_of_low
  · intro t ht
    rw [hlevel (by omega), decide_eq_false (by omega)]
  · rw [hlevel (by omega), decide_eq_true (by omega)]

/-- Mode 2 with OUT low reloads on the next clock. -/
theorem rises_rate_low (hmode : c.mode = 2) (hout : c.out = false) (hcount : c.count = 1) :
    RisesFirstAt c 1 := by
  have hone : ¬ 2 ≤ c.count.toNat := by
    rw [hcount]
    decide
  apply risesFirstAt_one hout
  rw [after, rate_first hstate hgate hbcd hmode rfl (if_neg hone), showing_out]

/-- Mode 2 with OUT high drops OUT for the clock before its first reload. -/
theorem rises_rate_run (hmode : c.mode = 2) (hout : c.out = true) (htwo : 2 ≤ c.count.toNat) :
    RisesFirstAt c c.count.toNat := by
  have hfirst := rate_first hstate hgate hbcd hmode rfl (if_pos htwo)
  have hdown {t : ℕ} (ht : t < c.count.toNat) := rate_down hstate hgate hbcd hmode htwo ht
  obtain ⟨m, hm⟩ : ∃ m, c.count.toNat = m + 1 := ⟨c.count.toNat - 1, by omega⟩
  rw [hm]
  apply risesFirstAt_of_levels (Nat.le_refl m)
  · intro t ht
    rw [after, hdown (by omega), showing_out, if_neg (by omega), hout]
  · intro t hlow hhigh
    rw [after, hdown (by omega), showing_out, if_pos (by omega)]
  · rw [after, ← hm, hfirst, showing_out]

/-- Mode 2 on an illegal count with OUT high runs a whole period after the next reload. -/
theorem rises_rate_reload (hmode : c.mode = 2) (hout : c.out = true) (hone : ¬ 2 ≤ c.count.toNat)
    (hlegal : 2 ≤ c.effectiveReload.toNat) : RisesFirstAt c (1 + c.effectiveReload.toNat) := by
  have hafter (k : ℕ) : (c.after (k + 1)).out =
      decide (k % c.effectiveReload.toNat ≠ c.effectiveReload.toNat - 1) := by
    rw [Nat.add_comm, after, rate_after hstate hgate hbcd hmode rfl (if_neg hone) hlegal, showing_out]
  generalize c.effectiveReload.toNat = r at hlegal hafter
  obtain ⟨m, rfl⟩ : ∃ m, r = m + 1 := ⟨r - 1, by omega⟩
  rw [Nat.add_comm]
  apply risesFirstAt_of_levels (Nat.le_refl _)
  · intro t ht
    cases t with
    | zero => exact hout
    | succ k =>
      rw [hafter, Nat.mod_eq_of_lt (by omega)]
      exact decide_eq_true (by omega)
  · intro t hlow hhigh
    rw [Nat.le_antisymm hhigh hlow, hafter, Nat.mod_eq_of_lt (Nat.lt_succ_self m)]
    exact decide_eq_false (by omega)
  · rw [hafter, Nat.mod_self]
    exact decide_eq_true (by omega)

/-- The level of mode 3 in the half-period after the one under way, and with its end. -/
theorem square_next_half (hmode : c.mode = 3) {k : ℕ}
    (hk : k ≤ mode3Half c.effectiveReload.toNat (!c.out)) :
    (c.after (mode3Half c.count.toNat c.out + k)).out =
      if k < mode3Half c.effectiveReload.toNat (!c.out) then !c.out else c.out := by
  have hreload := c.effectiveReload_bounds.1
  rw [after]
  by_cases hillegal : c.effectiveReload.toNat = 1
  · have hone : mode3Half c.effectiveReload.toNat (!c.out) = 1 := by
      rw [hillegal]
      cases c.out <;> rfl
    rw [square_illegal hstate hgate hbcd hmode rfl rfl hillegal, showing_out, hone]
    exact if_congr (by omega) rfl rfl
  · have hlegal : 2 ≤ c.effectiveReload.toNat := by omega
    have hadd := mode3Half_add hlegal (!c.out)
    have hrest := mode3Half_pos c.effectiveReload.toNat (!!c.out)
    rw [square_after hstate hgate hbcd hmode rfl rfl hlegal, squareAt_out,
      Nat.mod_eq_of_lt (by omega), Bool.not_not]

/-- Mode 3 rises with the end of a low half-period. -/
theorem rises_square (hmode : c.mode = 3) : RisesFirstAt c
    (if c.out then mode3Half c.count.toNat true + mode3Half c.effectiveReload.toNat false
      else mode3Half c.count.toNat false) := by
  have hpos := mode3Half_pos c.count.toNat c.out
  have hother := mode3Half_pos c.effectiveReload.toNat (!c.out)
  have hbefore {t : ℕ} (ht : t < mode3Half c.count.toNat c.out) : (c.after t).out = c.out := by
    rw [after, half_down hstate hgate hbcd hmode ht, showing_out]
  have hnext {k : ℕ} := square_next_half (k := k) hstate hgate hbcd hmode
  cases hout : c.out with
  | true =>
    rw [hout] at hpos hother hbefore hnext
    rw [Bool.not_true] at hother hnext
    rw [if_pos rfl]
    generalize mode3Half c.count.toNat true = half at *
    generalize mode3Half c.effectiveReload.toNat false = next at *
    obtain ⟨m, rfl⟩ : ∃ m, next = m + 1 := ⟨next - 1, by omega⟩
    apply risesFirstAt_of_levels (Nat.le_add_right half m) fun t ht => hbefore ht
    · intro t hlow hhigh
      obtain ⟨k, rfl⟩ := Nat.exists_eq_add_of_le hlow
      rw [hnext (by omega), if_pos (by omega)]
    · rw [Nat.add_assoc, hnext (Nat.le_refl _), if_neg (Nat.lt_irrefl _)]
  | false =>
    have hfirst := hnext (Nat.zero_le _)
    rw [Nat.add_zero, if_pos hother, hout] at hfirst
    rw [hout] at hpos hbefore
    rw [if_neg (by decide)]
    generalize mode3Half c.count.toNat false = half at *
    obtain ⟨m, rfl⟩ : ∃ m, half = m + 1 := ⟨half - 1, by omega⟩
    exact risesFirstAt_of_low (fun t ht => hbefore (by omega)) hfirst

theorem rises_strobe_low (hmode : c.mode = 4 ∨ c.mode = 5) (hout : c.out = false) :
    RisesFirstAt c 1 := by
  apply risesFirstAt_one hout
  rw [level_eq hstate hgate hbcd (by decide), countingOutAfter_strobe _ _ _ (by decide) hmode,
    if_pos hout]

/-- Modes 4 and 5 rise after the clock of their strobe. -/
theorem rises_strobe (hmode : c.mode = 4 ∨ c.mode = 5) (hout : c.out = true)
    (hzero : c.count.toNat ≠ 0) (hmax : c.count.toNat ≤ 65536) :
    RisesFirstAt c (c.count.toNat + 1) := by
  have hlevel {t : ℕ} (ht : t < 2 ^ 32) : (c.after t).out = decide (t ≠ c.count.toNat) := by
    by_cases hpos : t = 0
    · rw [hpos, after_zero, hout, decide_eq_true (by omega)]
    · rw [level_eq hstate hgate hbcd ht, countingOutAfter_strobe _ _ _ hpos hmode, hout,
        if_neg (by decide), if_neg hzero]
  apply risesFirstAt_of_levels (Nat.le_refl _)
  · intro t ht
    rw [hlevel (by omega), decide_eq_true (by omega)]
  · intro t hlow hhigh
    rw [hlevel (by omega), decide_eq_false (by omega)]
  · rw [hlevel (by omega), decide_eq_true (by omega)]

/-- A running count rises first when its peek tells. -/
theorem rises_counting (hsound : Sound c) {n : ℕ} (h : c.riseFrom c.count = some n) :
    RisesFirstAt c n := by
  have hterminal (hmode : c.mode = 0 ∨ c.mode = 1)
      (h : (if c.out ∨ c.count.toNat = 0 then none else some c.count.toNat) = some n) :
      RisesFirstAt c n := by
    split_ifs at h with hnever
    cases h
    obtain ⟨hout, hzero⟩ := not_or.mp hnever
    exact rises_terminal hstate hgate hbcd hmode (Bool.eq_false_iff.mpr hout) hzero
  have hstrobe (hmode : c.mode = 4 ∨ c.mode = 5)
      (h : (if c.out = false then some 1 else if c.count.toNat = 0 then none
        else some (c.count.toNat + 1)) = some n) : RisesFirstAt c n := by
    split_ifs at h with hlow hzero
    · cases h
      exact rises_strobe_low hstate hgate hbcd hmode hlow
    · cases h
      have hout := Bool.not_eq_false _ |>.mp hlow
      exact rises_strobe hstate hgate hbcd hmode hout hzero (hsound.strobe hmode hbcd hstate hout).2
  have hrate (hmode : c.mode = 2)
      (h : (if c.out = false then some 1 else if 2 ≤ c.count.toNat then some c.count.toNat
        else if 2 ≤ c.effectiveReload.toNat then some (1 + c.effectiveReload.toNat) else none) =
          some n) : RisesFirstAt c n := by
    split_ifs at h with hlow htwo hlegal
    · cases h
      exact rises_rate_low hstate hgate hbcd hmode hlow (hsound.rate hmode hbcd hlow).2.2
    · cases h
      exact rises_rate_run hstate hgate hbcd hmode (Bool.not_eq_false _ |>.mp hlow) htwo
    · cases h
      exact rises_rate_reload hstate hgate hbcd hmode (Bool.not_eq_false _ |>.mp hlow) htwo hlegal
  have hsquare (hmode : c.mode = 3)
      (h : (if c.out then some (mode3Half c.count.toNat true + mode3Half c.effectiveReload.toNat false)
        else some (mode3Half c.count.toNat false)) = some n) : RisesFirstAt c n := by
    have hrises := rises_square hstate hgate hbcd hmode
    split_ifs at h hrises with hout
    · cases h
      exact hrises
    · cases h
      exact hrises
  unfold riseFrom at h
  obtain (hmode | hmode) | hmode | hmode | (hmode | hmode) | ⟨k, hmode⟩ := c.mode_cases
  all_goals rw [hmode] at h
  · exact hterminal (.inl hmode) h
  · exact hterminal (.inr hmode) h
  · exact hrate hmode h
  · exact hsquare hmode h
  · exact hstrobe (.inl hmode) h
  · exact hstrobe (.inr hmode) h
  · cases h

end Counting

theorem Sound.load (h : Sound c) (hstate : c.state = .loadDelay) : Sound c.load where
  rate hmode hbcd hout := by
    have hcounting := (h.rate hmode hbcd hout).1
    rw [hstate] at hcounting
    cases hcounting
  strobe _ _ _ _ := c.effectiveReload_bounds

/-- A pending count rises one clock after the count it loads would. -/
theorem RisesFirstAt.of_load (hstate : c.state = .loadDelay) {n : ℕ} (h : RisesFirstAt c.load n) :
    RisesFirstAt c (n + 1) := by
  obtain ⟨m, rfl, hlow, hhigh, hbefore⟩ := h
  refine ⟨m + 1, rfl, ?_, ?_, fun t ht => ?_⟩
  · rw [after_load hstate]
    exact hlow
  · rw [after_load hstate]
    exact hhigh
  · cases t with
    | zero =>
      rw [after_load hstate]
      rintro ⟨hfalse, htrue⟩
      -- the load does not touch OUT
      have hsame : (c.load.after 0).out = (c.after 0).out := rfl
      rw [hsame, hfalse] at htrue
      cases htrue
    | succ t =>
      rw [after_load hstate, after_load hstate]
      exact hbefore t (by omega)

/-- The first rise of OUT is told ahead. -/
theorem rises_of_clocksUntilOutRise (hsound : Sound c) {n : ℕ} (h : c.clocksUntilOutRise = some n) :
    RisesFirstAt c n := by
  unfold clocksUntilOutRise at h
  cases hbcd : c.bcd with
  | true =>
    rw [hbcd, if_pos rfl] at h
    cases h
  | false =>
  rw [hbcd, if_neg (by decide)] at h
  cases hstate : c.state with
  | inactive =>
    rw [hstate] at h
    cases h
  | waitGate =>
    rw [hstate] at h
    cases h
  | loadDelay =>
    rw [hstate] at h
    dsimp only at h
    split_ifs at h with hgate
    rw [Option.map_eq_some_iff] at h
    obtain ⟨steps, hsteps, rfl⟩ := h
    exact (rises_counting (c := c.load) rfl (Bool.not_eq_false _ |>.mp hgate) hbcd
      (hsound.load hstate) hsteps).of_load hstate
  | counting =>
    rw [hstate] at h
    dsimp only at h
    split_ifs at h with hgate
    exact rises_counting hstate (Bool.not_eq_false _ |>.mp hgate) hbcd hsound h

inductive Event where
  | writeControl (value : UInt8) (clocks : ℕ)
  | writeCount (value : UInt8)
  | read (clocks : ℕ)
  | latchCount (clocks : ℕ)
  | latchStatus (clocks : ℕ)
  | setGate (level : Bool)
  | clock

def handle (c : Counter) : Event → Counter
  | .writeControl value clocks => c.writeControl value clocks
  | .writeCount value => c.writeCount value
  | .read clocks => (c.read clocks).2
  | .latchCount clocks => c.latchCount clocks
  | .latchStatus clocks => c.latchStatus clocks
  | .setGate level => c.setGate level
  | .clock => c.step.1

def live (c : Counter) : ℕ × Bool × Bool × Bool × CounterState × UInt32 :=
  (c.mode, c.bcd, c.out, c.gate, c.state, c.count)

theorem Sound.congr {d : Counter} (h : Sound c) (hlive : d.live = c.live) : Sound d := by
  simp only [live, Prod.mk.injEq] at hlive
  obtain ⟨hmode, hbcd, hout, hgate, hstate, hcount⟩ := hlive
  refine ⟨?_, ?_⟩
  · rw [hmode, hbcd, hout, hstate, hgate, hcount]
    exact h.rate
  · rw [hmode, hbcd, hstate, hout, hcount]
    exact h.strobe

theorem latchCount_live (c : Counter) (clocks : ℕ) : (c.latchCount clocks).live = c.live := by
  unfold latchCount
  split_ifs <;> rfl

theorem latchStatus_live (c : Counter) (clocks : ℕ) : (c.latchStatus clocks).live = c.live := by
  unfold latchStatus
  split_ifs <;> rfl

theorem read_live (c : Counter) (clocks : ℕ) : (c.read clocks).2.live = c.live := by
  unfold read
  split
  · rfl
  · dsimp only
    split
    · rfl
    · rfl
    · split_ifs <;> rfl

/-- The modes that nothing is asked of. -/
theorem sound_of_mode (hrate : c.mode ≠ 2) (hfour : c.mode ≠ 4) (hfive : c.mode ≠ 5) : Sound c where
  rate hmode := absurd hmode hrate
  strobe hmode := by
    rcases hmode with hmode | hmode
    · exact absurd hmode hfour
    · exact absurd hmode hfive

/-- Nor is anything of a counter that is not running, with OUT high. -/
theorem sound_of_high (hout : c.out = true) (hstate : c.state ≠ .counting) : Sound c where
  rate _ _ hlow := by
    rw [hout] at hlow
    cases hlow
  strobe _ _ hcounting := absurd hcounting hstate

/-- What a GATE input does: modes 1 and 5 are triggered by its rise, modes 2 and 3 are restarted by
its rise and forced high by its fall. -/
theorem setGate_cases (c : Counter) (level : Bool) :
    (c.setGate level = { c with gate := level } ∧ (c.mode = 2 → c.gate = level)) ∨
      (c.mode = 1 ∧ c.setGate level =
        { c with gate := level, count := c.effectiveReload, out := false, state := .counting }) ∨
      (c.mode = 5 ∧ c.setGate level =
        { c with gate := level, count := c.effectiveReload, out := true, state := .counting }) ∨
      ((c.mode = 2 ∨ c.mode = 3) ∧ c.gate = false ∧
        c.setGate level = { c with gate := level, state := .loadDelay }) ∨
      (c.mode = 2 ∨ c.mode = 3) ∧ c.setGate level = { c with gate := level, out := true } := by
  cases hgate : c.gate with
  | false =>
    cases level with
    | false =>
      refine .inl ⟨?_, fun _ => rfl⟩
      simp [setGate, hgate]
    | true =>
      unfold setGate
      rw [hgate, if_pos (by decide)]
      dsimp only
      split
      · next hmode => exact .inr (.inl ⟨hmode, rfl⟩)
      · next hmode => exact .inr (.inr (.inl ⟨hmode, rfl⟩))
      · next hmode => exact .inr (.inr (.inr (.inl ⟨.inl hmode, rfl, rfl⟩)))
      · next hmode => exact .inr (.inr (.inr (.inl ⟨.inr hmode, rfl, rfl⟩)))
      · next hother _ => exact .inl ⟨rfl, fun hmode => absurd hmode (by assumption)⟩
  | true =>
    cases level with
    | true =>
      refine .inl ⟨?_, fun _ => rfl⟩
      simp [setGate, hgate]
    | false =>
      have hfall : c.setGate false = if c.mode = 2 ∨ c.mode = 3 then
          { c with gate := false, out := true } else { c with gate := false } := by
        unfold setGate
        rw [hgate]
        exact (if_neg (by decide)).trans (if_congr (and_iff_right rfl) rfl rfl)
      rw [hfall]
      by_cases hmode : c.mode = 2 ∨ c.mode = 3
      · rw [if_pos hmode]
        exact .inr (.inr (.inr (.inr ⟨hmode, rfl⟩)))
      · rw [if_neg hmode]
        exact .inl ⟨rfl, fun htwo => absurd (.inl htwo) hmode⟩

section

variable (h : Sound c)
include h

theorem Sound.writeControl (value : UInt8) (clocks : ℕ) : Sound (c.writeControl value clocks) := by
  unfold Counter.writeControl
  dsimp only
  by_cases hlatch : (value >>> 4) &&& 0x3 = 0
  · rw [if_pos hlatch]
    exact h.congr (c.latchCount_live clocks)
  · -- a new programming has no live count, and mode 2 starts with OUT high
    rw [if_neg hlatch]
    refine ⟨fun hmode _ hout => ?_, fun _ _ hstate => CounterState.noConfusion hstate⟩
    dsimp only at hmode hout
    rw [hmode] at hout
    cases hout

/-- Arming leaves a running periodic count and a running pulse alone. -/
theorem Sound.arm : Sound c.arm where
  rate hmode hbcd hout := by
    obtain ⟨hstate, hgate, hcount⟩ := h.rate hmode hbcd hout
    refine ⟨?_, hgate, hcount⟩
    unfold Counter.arm
    rw [show c.mode = 2 from hmode, hstate]
    rfl
  strobe hmode hbcd hstate hout := by
    unfold Counter.arm at hstate
    rcases hmode with hmode | hmode
    · rw [show c.mode = 4 from hmode] at hstate
      cases hstate
    · rw [show c.mode = 5 from hmode] at hstate
      dsimp only at hstate
      split_ifs at hstate with hidle
      exact h.strobe (.inr hmode) hbcd hstate hout

theorem Sound.writeCount (value : UInt8) : Sound (c.writeCount value) := by
  unfold Counter.writeCount
  split
  · exact (h.congr (d := c.setLow value) rfl).arm
  · exact (h.congr (d := c.setHigh value) rfl).arm
  · split_ifs with hfirst
    · dsimp only
      split_ifs with hmode
      · exact sound_of_mode (by rw [hmode]; decide) (by rw [hmode]; decide) (by rw [hmode]; decide)
      · exact h.congr rfl
    · exact (h.congr (d := { c.setHigh value with writeMsbNext := false }) rfl).arm

theorem Sound.setGate (level : Bool) : Sound (c.setGate level) := by
  obtain ⟨hform, hsame⟩ | ⟨hmode, hform⟩ | ⟨hmode, hform⟩ | ⟨hmode, hlow, hform⟩ | ⟨hmode, hform⟩ :=
    c.setGate_cases level
  · rw [hform]
    refine ⟨fun hmode hbcd hout => ?_, h.strobe⟩
    obtain ⟨hstate, hopen, hcount⟩ := h.rate hmode hbcd hout
    exact ⟨hstate, (hsame hmode).symm.trans hopen, hcount⟩
  · rw [hform]
    exact sound_of_mode (by simp [hmode]) (by simp [hmode]) (by simp [hmode])
  · rw [hform]
    exact ⟨fun htwo => absurd htwo (by simp [hmode]), fun _ _ _ _ => c.effectiveReload_bounds⟩
  · rw [hform]
    refine ⟨fun htwo hbcd hout => ?_, fun _ _ hstate => CounterState.noConfusion hstate⟩
    -- OUT was forced high while the GATE was low
    have hopen := (h.rate htwo hbcd hout).2.1
    rw [hlow] at hopen
    cases hopen
  · rw [hform]
    refine ⟨fun _ _ hout => Bool.noConfusion hout, fun hother => ?_⟩
    dsimp only at hother
    omega

theorem Sound.pause : Sound c.pause := by
  unfold Counter.pause
  by_cases hmode : c.mode = 2 ∨ c.mode = 3
  · rw [if_pos hmode]
    refine ⟨fun _ _ hout => Bool.noConfusion hout, fun hother => ?_⟩
    dsimp only at hother
    omega
  · rw [if_neg hmode]
    exact h

/-- Mode 2 drops OUT as the element comes to 1, and raises it with the reload. -/
theorem Sound.stepRate (hmode : c.mode = 2) (hstate : c.state = .counting)
    (hgate : c.gate = true) : Sound c.stepRate.1 := by
  unfold Counter.stepRate
  split_ifs with hsmall
  · refine ⟨fun _ _ hout => Bool.noConfusion hout, fun hother => ?_⟩
    dsimp only at hother
    omega
  · dsimp only
    refine ⟨fun _ hbcd hout => ?_, fun hother => ?_⟩
    · dsimp only at hout hbcd ⊢
      split_ifs at hout with hone
      · exact ⟨hstate, hgate, hone⟩
      · rw [(h.rate hmode hbcd hout).2.2] at hsmall
        exact absurd (by decide) hsmall
    · dsimp only at hother
      omega

/-- Modes 4 and 5 drop OUT as the element comes to 0. -/
theorem Sound.stepStrobe (hmode : c.mode = 4 ∨ c.mode = 5)
    (hstate : c.state = .counting) : Sound c.stepStrobe.1 := by
  unfold Counter.stepStrobe
  split_ifs with hout
  · refine ⟨fun htwo => ?_, fun _ hbcd _ hhigh => ?_⟩
    · dsimp only at htwo
      omega
    · dsimp only at hbcd hhigh ⊢
      obtain ⟨hlow, hmax⟩ := h.strobe hmode hbcd hstate hout
      have hdec := dec_toNat hbcd c.count (show 1 < 2 ^ 32 by decide)
      have hne : (c.dec c.count 1).toNat ≠ 0 := by
        intro hzero
        rw [if_pos (UInt32.toNat_inj.mp hzero)] at hhigh
        cases hhigh
      omega
  · exact sound_of_high rfl CounterState.noConfusion

theorem Sound.step : Sound c.step.1 := by
  unfold Counter.step
  cases hstate : c.state with
  | inactive => exact h
  | waitGate => exact h
  | loadDelay => exact h.load hstate
  | counting =>
    dsimp only
    have hframe : c.stepCounting.1.mode = c.mode := by
      obtain ⟨_, _, _, hform, -⟩ := c.stepCounting_frame
      rw [hform]
    by_cases hother : c.mode ≠ 2 ∧ c.mode ≠ 4 ∧ c.mode ≠ 5
    · apply sound_of_mode <;> rw [hframe]
      · exact hother.1
      · exact hother.2.1
      · exact hother.2.2
    unfold Counter.stepCounting
    split_ifs with hgate
    · exact h.pause
    · have hopen := Bool.not_eq_false _ |>.mp hgate
      obtain (hmode | hmode) | hmode | hmode | (hmode | hmode) | ⟨k, hmode⟩ := c.mode_cases
      all_goals rw [hmode] at hother ⊢
      · omega
      · omega
      · exact h.stepRate hmode hstate hopen
      · omega
      · exact h.stepStrobe (.inl hmode) hstate
      · exact h.stepStrobe (.inr hmode) hstate
      · omega

theorem Sound.handle (e : Event) : Sound (c.handle e) := by
  cases e with
  | writeControl value clocks => exact h.writeControl value clocks
  | writeCount value => exact h.writeCount value
  | read clocks => exact h.congr (c.read_live clocks)
  | latchCount clocks => exact h.congr (c.latchCount_live clocks)
  | latchStatus clocks => exact h.congr (c.latchStatus_live clocks)
  | setGate level => exact h.setGate level
  | clock => exact h.step

end

theorem sound_powerOn : Sound powerOn := sound_of_mode (by decide) (by decide) (by decide)

theorem sound_of_run (events : List Event) : Sound (Runs.exec handle events powerOn) :=
  List.foldlRecOn events handle sound_powerOn fun _ h e _ => h.handle e

/-- In every binary counter that port accesses, GATE changes and clocks lead to from power-on, the
peeks tell what the next clocks do: OUT, the count that a read sees and the null-count flag after
fewer than 2³² of them, and the first of them on which OUT rises. -/
theorem peeks_eq_stepping (events : List Event)
    (hbinary : (Runs.exec handle events powerOn).bcd = false) :
    let c := Runs.exec handle events powerOn
    (∀ clocks < 2 ^ 32, c.outAfter clocks = some (c.after clocks).out ∧
      c.countAfter clocks = some (c.after clocks).maskedCount ∧
      c.nullCountAfter clocks = (c.after clocks).nullCount) ∧
    ∀ n, c.clocksUntilOutRise = some n → c.RisesFirstAt n := by
  intro c
  refine ⟨fun clocks hclocks => ⟨?_, ?_, ?_⟩, fun n hn => ?_⟩
  · exact outAfter_eq hbinary hclocks
  · exact countAfter_eq hbinary hclocks
  · exact nullCountAfter_eq c clocks
  · exact rises_of_clocksUntilOutRise (sound_of_run events) hn

/-- A square wave of five clocks, before its count is loaded. -/
theorem square_peeked :
    let c := Runs.exec handle [.writeControl 0x36 0, .writeCount 5, .writeCount 0] powerOn
    c.bcd = false ∧ c.clocksUntilOutRise = some 6 ∧ c.RisesFirstAt 6 ∧
      c.outAfter 1000000 = some (c.after 1000000).out := by
  intro c
  have hpeeks := peeks_eq_stepping [.writeControl 0x36 0, .writeCount 5, .writeCount 0] rfl
  have hrise : c.clocksUntilOutRise = some 6 := by decide
  exact ⟨rfl, hrise, hpeeks.2 6 hrise, (hpeeks.1 1000000 (by decide)).1⟩

end Counter

end IzarraVM.Timer
