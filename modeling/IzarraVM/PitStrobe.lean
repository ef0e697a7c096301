import IzarraVM.PitRises

/-! The strobe of mode 4: a written count drives OUT low for one clock. -/
namespace IzarraVM.Timer.Counter

section Decimal

def decimal (x : ℕ) : ℕ :=
  x % 16 + 10 * (x / 16 % 16) + 100 * (x / 256 % 16) + 1000 * (x / 4096 % 16)

theorem decimal_eq_zero {x : ℕ} (hlt : x < 2 ^ 16) : decimal x = 0 ↔ x = 0 := by
  constructor
  · intro h
    simp only [decimal, Nat.add_eq_zero_iff, Nat.mul_eq_zero] at h
    omega
  · rintro rfl
    rfl

/-- A borrow takes one off the number that the digits stand for. -/
theorem borrow_spec {ds : List UInt32} (h : ∀ d ∈ ds, d.toNat < 16)
    (hpos : Nat.ofDigits 10 (ds.map UInt32.toNat) ≠ 0) :
    (borrow ds).length = ds.length ∧ (∀ d ∈ borrow ds, d.toNat < 16) ∧
      Nat.ofDigits 10 ((borrow ds).map UInt32.toNat) + 1 = Nat.ofDigits 10 (ds.map UInt32.toNat) := by
  induction ds with
  | nil => exact absurd rfl hpos
  | cons d ds ih =>
    obtain ⟨hd, hrest⟩ := List.forall_mem_cons.mp h
    rw [List.map_cons, Nat.ofDigits_cons] at hpos ⊢
    rw [borrow]
    by_cases hlow : 0 < d
    · have hnat : 0 < d.toNat := UInt32.lt_iff_toNat_lt.mp hlow
      have hpred : (d - 1).toNat = d.toNat - 1 := UInt32.toNat_sub_of_le _ _ hnat
      rw [if_pos hlow, List.map_cons, Nat.ofDigits_cons, hpred]
      refine ⟨rfl, List.forall_mem_cons.mpr ⟨by omega, hrest⟩, ?_⟩
      omega
    · have hzero : d.toNat = 0 := by
        have hnot := mt UInt32.lt_iff_toNat_lt.mpr hlow
        change ¬ 0 < d.toNat at hnot
        omega
      rw [hzero] at hpos ⊢
      obtain ⟨hlength, hborrowed, hvalue⟩ := ih hrest fun h => hpos (by rw [h])
      rw [if_neg hlow, List.map_cons, Nat.ofDigits_cons, ← hvalue]
      refine ⟨congrArg Nat.succ hlength, List.forall_mem_cons.mpr ⟨by decide, hborrowed⟩, ?_⟩
      change 9 + _ + 1 = _
      omega

theorem or_shift_toNat {d high : UInt32} (hd : d.toNat < 16) (hhigh : high.toNat < 4096) :
    (d ||| (high <<< 4)).toNat = d.toNat + 16 * high.toNat := by
  have hfour : (4 : UInt32).toNat % 32 = 4 := by decide
  have hfits : high.toNat <<< 4 < 2 ^ 32 := by
    rw [Nat.shiftLeft_eq]
    omega
  rw [UInt32.toNat_or, UInt32.toNat_shiftLeft, hfour, Nat.mod_eq_of_lt hfits, Nat.or_comm,
    ← Nat.shiftLeft_add_eq_or_of_lt (i := 4) hd, Nat.shiftLeft_eq]
  omega

/-- Digits are packed four bits each. -/
theorem pack_toNat {ds : List UInt32} (h : ∀ d ∈ ds, d.toNat < 16) (hshort : ds.length ≤ 4) :
    (ds.foldr (fun (d high : UInt32) => d ||| (high <<< 4)) 0).toNat =
        Nat.ofDigits 16 (ds.map UInt32.toNat) ∧
      Nat.ofDigits 16 (ds.map UInt32.toNat) < 16 ^ ds.length := by
  induction ds with
  | nil => exact ⟨rfl, by decide⟩
  | cons d ds ih =>
    rw [List.length_cons] at hshort
    obtain ⟨hpack, hbound⟩ := ih (fun e he => h e (List.mem_cons_of_mem _ he)) (by omega)
    have hd := h d List.mem_cons_self
    have hsmall : Nat.ofDigits 16 (ds.map UInt32.toNat) < 4096 :=
      Nat.lt_of_lt_of_le hbound (Nat.pow_le_pow_right (by decide) (show ds.length ≤ 3 by omega))
    rw [List.foldr_cons, List.map_cons, Nat.ofDigits_cons, List.length_cons, Nat.pow_succ]
    exact ⟨by rw [or_shift_toNat hd (by omega), hpack], by omega⟩

/-- The digits that a packed count is taken apart into. -/
theorem decimal_ofDigits {a b c d : ℕ} (ha : a < 16) (hb : b < 16) (hc : c < 16) (hd : d < 16) :
    decimal (Nat.ofDigits 16 [a, b, c, d]) = Nat.ofDigits 10 [a, b, c, d] := by
  simp only [Nat.ofDigits_cons, Nat.ofDigits_nil, decimal]
  omega

theorem nibble_toNat (x : UInt32) {k : UInt32} (hk : k.toNat < 32) :
    ((x >>> k) &&& 0xF).toNat = x.toNat / 2 ^ k.toNat % 16 := by
  rw [UInt32.toNat_and, UInt32.toNat_shiftRight, Nat.mod_eq_of_lt hk, Nat.shiftRight_eq_div_pow]
  exact Nat.and_two_pow_sub_one_eq_mod _ 4

/-- A decimal step takes one off a count that is not zero. -/
theorem decimal_bcdDecOnce {x : UInt32} (hlt : x.toNat < 2 ^ 16) (hne : x ≠ 0) :
    (bcdDecOnce x).toNat < 2 ^ 16 ∧ decimal (bcdDecOnce x).toNat + 1 = decimal x.toNat := by
  have hpos : x.toNat ≠ 0 := fun h => hne (UInt32.toNat_inj.mp h)
  have h0 : (x &&& 0xF).toNat = x.toNat % 16 := by
    rw [UInt32.toNat_and]
    exact Nat.and_two_pow_sub_one_eq_mod _ 4
  have h1 : ((x >>> 4) &&& 0xF).toNat = x.toNat / 16 % 16 := nibble_toNat x (by decide)
  have h2 : ((x >>> 8) &&& 0xF).toNat = x.toNat / 256 % 16 := nibble_toNat x (by decide)
  have h3 : ((x >>> 12) &&& 0xF).toNat = x.toNat / 4096 % 16 := nibble_toNat x (by decide)
  obtain ⟨ds, hds⟩ : ∃ ds, [x &&& 0xF, (x >>> 4) &&& 0xF, (x >>> 8) &&& 0xF, (x >>> 12) &&& 0xF] = ds :=
    ⟨_, rfl⟩
  have hdigits : ∀ d ∈ ds, d.toNat < 16 := by
    rw [← hds]
    simp only [List.mem_cons, List.not_mem_nil, or_false]
    rintro d (rfl | rfl | rfl | rfl) <;> omega
  have hdecimal : Nat.ofDigits 10 (ds.map UInt32.toNat) = decimal x.toNat := by
    rw [← hds]
    simp only [List.map_cons, List.map_nil, Nat.ofDigits_cons, Nat.ofDigits_nil, h0, h1, h2, h3, decimal]
    omega
  obtain ⟨hlength, hborrowed, hvalue⟩ := borrow_spec hdigits fun h =>
    hpos ((decimal_eq_zero hlt).mp (hdecimal.symm.trans h))
  have hfour : (borrow ds).length = 4 := by
    rw [hlength, ← hds]
    rfl
  obtain ⟨hpack, hbound⟩ := pack_toNat hborrowed (Nat.le_of_eq hfour)
  rw [bcdDecOnce, if_neg hne, hds, hpack]
  refine ⟨by rw [hfour] at hbound; exact hbound, ?_⟩
  obtain ⟨a, b, c, d, heq⟩ : ∃ a b c d, borrow ds = [a, b, c, d] := by
    match hb : borrow ds, hfour with
    | [a, b, c, d], _ => exact ⟨a, b, c, d, rfl⟩
  rw [heq] at hvalue hborrowed ⊢
  simp only [List.mem_cons, List.not_mem_nil, or_false] at hborrowed
  have hleft : decimal (Nat.ofDigits 16 ([a, b, c, d].map UInt32.toNat)) =
      Nat.ofDigits 10 ([a, b, c, d].map UInt32.toNat) :=
    decimal_ofDigits (hborrowed a (.inl rfl)) (hborrowed b (.inr (.inl rfl)))
      (hborrowed c (.inr (.inr (.inl rfl)))) (hborrowed d (.inr (.inr (.inr rfl))))
  rw [hleft, hvalue, hdecimal]

end Decimal

def remaining (bcd : Bool) (count : UInt32) : ℕ :=
  if bcd then if count.toNat % 2 ^ 16 = 0 then 10000 else decimal (count.toNat % 2 ^ 16)
  else if count.toNat = 0 then 2 ^ 32 else count.toNat

/-- A clock takes one off. -/
theorem dec_remaining (c : Counter) :
    (c.dec c.count 1 = 0 ↔ remaining c.bcd c.count = 1) ∧
      (c.dec c.count 1 ≠ 0 → remaining c.bcd (c.dec c.count 1) + 1 = remaining c.bcd c.count) := by
  have hv := c.count.toNat_lt
  rw [ne_eq, ← UInt32.toNat_inj, UInt32.toNat_zero]
  cases hbcd : c.bcd with
  | false =>
    have hdec := dec_toNat hbcd c.count (show 1 < 2 ^ 32 by decide)
    simp only [remaining, hdec, Bool.false_eq_true, if_false]
    by_cases hzero : c.count.toNat = 0
    · rw [if_pos hzero, hzero]
      decide
    · rw [if_neg hzero]
      refine ⟨by omega, fun hne => ?_⟩
      rw [if_neg hne]
      omega
  | true =>
    have hdec : c.dec c.count 1 = bcdDecOnce (c.count &&& 0xFFFF) := by
      rw [dec, hbcd, if_pos rfl]
      rfl
    have hlow := low_toNat c.count
    simp only [remaining, hdec, if_true]
    by_cases hzero : c.count.toNat % 2 ^ 16 = 0
    · have hwrap : c.count &&& 0xFFFF = 0 := UInt32.toNat_inj.mp (hlow.trans hzero)
      rw [if_pos hzero, hwrap]
      decide
    · have hne : c.count &&& 0xFFFF ≠ 0 := fun h => hzero (by rw [← hlow, h]; rfl)
      obtain ⟨hlt, hvalue⟩ := decimal_bcdDecOnce (by rw [hlow]; omega) hne
      have hiff := decimal_eq_zero hlt
      rw [if_neg hzero, ← hlow]
      refine ⟨by omega, fun hleft => ?_⟩
      rw [Nat.mod_eq_of_lt hlt, if_neg hleft]
      exact hvalue

section Strobe

variable {c : Counter} (hmode : c.mode = 4) (hstate : c.state = .counting) (hgate : c.gate = true)

include hmode hstate hgate

theorem step_high (hout : c.out = true) : c.step.1 =
    { c with count := c.dec c.count 1, out := decide (remaining c.bcd c.count ≠ 1) } := by
  rw [step_strobe hstate hgate (.inl hmode), stepStrobe, if_pos hout]
  have hiff := c.dec_remaining.1
  by_cases hlast : remaining c.bcd c.count = 1
  · simp only [if_pos (hiff.mpr hlast), hlast]
    rfl
  · simp only [if_neg (mt hiff.mp hlast), hout, decide_eq_true hlast]

theorem step_low (hout : c.out = false) : c.step.1 = { c with out := true, state := .inactive } := by
  rw [step_strobe hstate hgate (.inl hmode), stepStrobe, hout]
  rfl

/-- On its way down a count keeps OUT high. -/
theorem strobe_before (hout : c.out = true) {k : ℕ} (hk : k < remaining c.bcd c.count) :
    ∃ count, c.after k = { c with count } ∧ remaining c.bcd count + k = remaining c.bcd c.count := by
  induction k with
  | zero => exact ⟨c.count, rfl, rfl⟩
  | succ k ih =>
    obtain ⟨count, hform, hleft⟩ := ih (by omega)
    have hdec := ({ c with count } : Counter).dec_remaining
    have hmore : remaining c.bcd count ≠ 1 := by omega
    refine ⟨({ c with count } : Counter).dec count 1, ?_, ?_⟩
    · rw [after_succ, hform, step_high (c := { c with count }) hmode hstate hgate hout]
      dsimp only
      rw [decide_eq_true hmore, ← hout]
    · have hvalue := hdec.2 fun hzero => hmore (hdec.1.mp hzero)
      dsimp only at hvalue
      omega

/-- It drops OUT for one clock as it comes to zero, and then stops. -/
theorem strobe_level (hout : c.out = true) (hpos : 0 < remaining c.bcd c.count) (k : ℕ) :
    (c.after k).out = decide (k ≠ remaining c.bcd c.count) := by
  obtain ⟨n, hn⟩ : ∃ n, remaining c.bcd c.count = n + 1 := ⟨_, (Nat.succ_pred_eq_of_pos hpos).symm⟩
  rcases Nat.lt_or_ge k (n + 1) with hbefore | hpast
  · obtain ⟨count, hform, -⟩ := strobe_before hmode hstate hgate hout (hn ▸ hbefore)
    rw [hform, decide_eq_true (by omega)]
    exact hout
  obtain ⟨count, hform, hleft⟩ := strobe_before hmode hstate hgate hout (k := n) (by omega)
  have hlast : remaining c.bcd count = 1 := by omega
  have hlow : c.after (n + 1) =
      { c with count := ({ c with count } : Counter).dec count 1, out := false } := by
    rw [after_succ, hform, step_high (c := { c with count }) hmode hstate hgate hout]
    dsimp only
    rw [hlast]
    rfl
  obtain ⟨m, rfl⟩ := Nat.exists_eq_add_of_le hpast
  cases m with
  | zero =>
    rw [Nat.add_zero, hlow, decide_eq_false (by omega)]
  | succ m =>
    have hend : c.after (n + 1 + 1) =
        { c with count := ({ c with count } : Counter).dec count 1, out := true, state := .inactive } := by
      rw [after_succ, hlow]
      exact step_low (c := { c with count := ({ c with count } : Counter).dec count 1, out := false })
        hmode hstate hgate rfl
    rw [show n + 1 + (m + 1) = n + 1 + 1 + m by omega, after_add, hend, after_idle (.inl rfl),
      decide_eq_true (by omega)]

/-- A count that finds OUT low is over with the next clock. -/
theorem lost_level (hout : c.out = false) (k : ℕ) : (c.after k).out = decide (k ≠ 0) := by
  cases k with
  | zero => exact hout
  | succ k =>
    have hend : c.after 1 = { c with out := true, state := .inactive } :=
      step_low hmode hstate hgate hout
    rw [Nat.add_comm, after_add, hend, after_idle (.inl rfl), decide_eq_true (by omega)]

end Strobe

open Runs ClockTrace

def Leaves (c : Counter) : Event → Prop
  | .writeControl value _ => (value >>> 4) &&& 0x3 = 0
  | .writeCount _ => c.rw = .lsbThenMsb ∧ c.writeMsbNext = false
  | .setGate level => level = true
  | _ => True

def Completes (c : Counter) : Prop := c.rw = .lsbThenMsb → c.writeMsbNext = true

def clocks : List Event → ℕ
  | [] => 0
  | .clock :: rest => clocks rest + 1
  | _ :: rest => clocks rest

def outAt : List Event → Counter → ℕ → Bool
  | _, c, 0 => c.out
  | [], c, _ + 1 => c.out
  | .clock :: rest, c, t + 1 => outAt rest (c.handle .clock) t
  | e :: rest, c, t + 1 => outAt rest (c.handle e) (t + 1)

section Interleaved

variable {c d : Counter}

theorem live_eq_iff : d.live = c.live ↔ d.mode = c.mode ∧ d.bcd = c.bcd ∧ d.out = c.out ∧
    d.gate = c.gate ∧ d.state = c.state ∧ d.count = c.count := by
  simp only [live, Prod.mk.injEq]

theorem handle_live (hmode : c.mode = 4) (hgate : c.gate = true) {e : Event} (hleaves : c.Leaves e)
    (hclock : e ≠ .clock) : (c.handle e).live = c.live := by
  cases e with
  | writeControl value clocks =>
    have hlatch : (value >>> 4) &&& 0x3 = 0 := hleaves
    rw [handle, writeControl, if_pos hlatch]
    exact c.latchCount_live clocks
  | writeCount value =>
    have hbyte : c.writeCount value = { c.setLow value with writeMsbNext := true } := by
      rw [writeCount, hleaves.1]
      dsimp only
      rw [if_pos hleaves.2]
      exact if_neg (by rw [show (c.setLow value).mode = c.mode from rfl, hmode]; decide)
    rw [handle, hbyte]
    rfl
  | read clocks => exact c.read_live clocks
  | latchCount clocks => exact c.latchCount_live clocks
  | latchStatus clocks => exact c.latchStatus_live clocks
  | setGate level =>
    cases hleaves
    rw [handle, setGate, hgate, live_eq_iff]
    simp [hgate]
  | clock => exact absurd rfl hclock

/-- A clock of mode 4 that is no load has no part in the programmed count. -/
theorem step_live (hmode : c.mode = 4) (hstate : c.state ≠ .loadDelay) (hlive : d.live = c.live) :
    d.step.1.live = c.step.1.live := by
  obtain ⟨hm, hb, ho, hg, hs, hc⟩ := live_eq_iff.mp hlive
  unfold step
  rw [hs]
  cases hlive' : c.state with
  | inactive => exact hlive
  | waitGate => exact hlive
  | loadDelay => exact absurd hlive' hstate
  | counting =>
    have hdec : d.dec d.count 1 = c.dec c.count 1 := by
      unfold dec
      rw [hb, hc]
    have hpause (e : Counter) (he : e.mode = 4) : e.pause.live = e.live := by
      exact live_eq_iff.mpr ⟨rfl, rfl, if_neg (by rw [he]; decide), rfl, rfl, rfl⟩
    dsimp only
    unfold stepCounting
    rw [hg, hm, hmode]
    cases c.gate with
    | false => exact (hpause d (hm.trans hmode)).trans (hlive.trans (hpause c hmode).symm)
    | true =>
      change d.stepStrobe.1.live = c.stepStrobe.1.live
      unfold stepStrobe
      rw [ho, hdec]
      split_ifs
      · exact live_eq_iff.mpr ⟨hm, hb, rfl, hg, hs, rfl⟩
      · exact live_eq_iff.mpr ⟨hm, hb, rfl, hg, rfl, hc⟩

theorem step_keeps (c : Counter) : c.step.1.mode = c.mode ∧ c.step.1.gate = c.gate ∧
    c.step.1.state ≠ .loadDelay := by
  obtain ⟨_, _, _, _, hform, hnext, -⟩ := c.step_frame
  rw [hform]
  exact ⟨rfl, rfl, hnext⟩

/-- Once a count is loaded, what comes between the clocks has no part in OUT. -/
theorem outAt_loaded (rest : List Event) {t : ℕ} (hmode : c.mode = 4) (hgate : c.gate = true)
    (hstate : c.state ≠ .loadDelay) (hlive : d.live = c.live) (hleaves : Along handle Leaves rest d)
    (ht : t ≤ clocks rest) : outAt rest d t = (c.after t).out := by
  induction rest generalizing c d t with
  | nil =>
    rw [Nat.le_zero.mp ht]
    exact (live_eq_iff.mp hlive).2.2.1
  | cons e rest ih =>
    obtain ⟨hm, -, ho, hg, -, -⟩ := live_eq_iff.mp hlive
    cases t with
    | zero =>
      rw [outAt]
      exact ho
    | succ t =>
      by_cases hclock : e = .clock
      · subst hclock
        obtain ⟨hmode', hgate', hstate'⟩ := c.step_keeps
        rw [outAt, Nat.add_comm, after_add]
        exact ih (hmode'.trans hmode) (hgate'.trans hgate) hstate' (step_live hmode hstate hlive)
          hleaves.2 (Nat.le_of_succ_le_succ ht)
      · have hkept := (handle_live (hm.trans hmode) (hg.trans hgate) hleaves.1 hclock).trans hlive
        have hnext : outAt (e :: rest) d (t + 1) = outAt rest (d.handle e) (t + 1) := by
          cases e <;> first | rfl | exact absurd rfl hclock
        have hcount : clocks (e :: rest) = clocks rest := by
          cases e <;> first | rfl | exact absurd rfl hclock
        rw [hnext]
        exact ih hmode hgate hstate hkept hleaves.2 (hcount ▸ ht)

end Interleaved

section Law

variable {c : Counter}

def programmedClocks (c : Counter) : ℕ := remaining c.bcd c.effectiveReload

theorem programmedClocks_pos (c : Counter) : 0 < c.programmedClocks := by
  obtain ⟨hlow, hhigh⟩ := c.effectiveReload_bounds
  unfold programmedClocks remaining
  have hiff := decimal_eq_zero (Nat.mod_lt c.effectiveReload.toNat (show 0 < 2 ^ 16 by decide))
  split_ifs with hbcd hzero hwrap
  · decide
  · omega
  · decide
  · omega

/-- A count that is completed in mode 4 waits for its load. -/
theorem writeCount_completed (hmode : c.mode = 4) (hcomplete : c.Completes) (value : UInt8) :
    (c.writeCount value).mode = 4 ∧ (c.writeCount value).out = c.out ∧
      (c.writeCount value).gate = c.gate ∧ (c.writeCount value).state = .loadDelay := by
  have harm {d : Counter} (hd : d.mode = 4) (hout : d.out = c.out) (hgate : d.gate = c.gate) :
      d.arm.mode = 4 ∧ d.arm.out = c.out ∧ d.arm.gate = c.gate ∧ d.arm.state = .loadDelay := by
    refine ⟨hd, hout, hgate, ?_⟩
    unfold arm
    rw [hd]
    rfl
  unfold writeCount
  cases hrw : c.rw with
  | lsb => exact harm hmode rfl rfl
  | msb => exact harm hmode rfl rfl
  | lsbThenMsb =>
    dsimp only
    rw [hcomplete hrw, if_neg (by decide)]
    exact harm hmode rfl rfl

theorem exec_quiet (early : List Event) (hmode : c.mode = 4) (hgate : c.gate = true)
    (hquiet : .clock ∉ early) (hleaves : Along handle Leaves early c) :
    (exec handle early c).live = c.live := by
  induction early generalizing c with
  | nil => rfl
  | cons e early ih =>
    have hne : e ≠ .clock := fun h => hquiet (h ▸ List.mem_cons_self)
    have hkept := handle_live hmode hgate hleaves.1 hne
    obtain ⟨hm, -, -, hg, -, -⟩ := live_eq_iff.mp hkept
    rw [exec_cons]
    exact (ih (hm.trans hmode) (hg.trans hgate) (fun h => hquiet (List.mem_cons_of_mem _ h))
      hleaves.2).trans hkept

/-- The clock after some quiet accesses. -/
theorem outAt_first_clock (early rest : List Event) (hquiet : .clock ∉ early) (t : ℕ) :
    outAt (early ++ .clock :: rest) c (t + 1) = outAt rest (exec handle early c).step.1 t ∧
      clocks (early ++ .clock :: rest) = clocks rest + 1 := by
  induction early generalizing c with
  | nil => exact ⟨rfl, rfl⟩
  | cons e early ih =>
    have hne : e ≠ .clock := fun h => hquiet (h ▸ List.mem_cons_self)
    obtain ⟨hout, hclocks⟩ := ih (c := c.handle e) fun h => hquiet (List.mem_cons_of_mem _ h)
    rw [exec_cons, ← hout, ← hclocks]
    cases e <;> first | exact ⟨rfl, rfl⟩ | exact absurd rfl hne

theorem clocks_replicate (late : List Event) (more : ℕ) :
    clocks (late ++ List.replicate more .clock) = clocks late + more := by
  induction late with
  | nil =>
    induction more with
    | zero => rfl
    | succ more ih =>
      rw [List.nil_append] at ih ⊢
      rw [List.replicate_succ]
      exact congrArg Nat.succ ih
  | cons e late ih =>
    rw [List.cons_append]
    cases e <;> simp only [clocks, ih]
    omega

theorem along_replicate (more : ℕ) (c : Counter) :
    Along handle Leaves (List.replicate more .clock) c := by
  induction more generalizing c with
  | zero => trivial
  | succ more ih =>
    rw [List.replicate_succ]
    exact ⟨trivial, ih _⟩

/-- OUT over the clocks that follow a completed count of mode 4: the strobe of the count that is
loaded if OUT was high, and nothing but the end of the strobe under way if it was low. -/
theorem changes_after_count (hmode : c.mode = 4) (hgate : c.gate = true) (hcomplete : c.Completes)
    (value : UInt8) {early rest : List Event} (hquiet : .clock ∉ early)
    (hleaves : Along handle Leaves (early ++ .clock :: rest) (c.writeCount value)) :
    changes (outAt (early ++ .clock :: rest) (c.writeCount value))
        (clocks (early ++ .clock :: rest)) =
      if c.out then
        pulse ((exec handle early (c.writeCount value)).programmedClocks + 1)
          (clocks (early ++ .clock :: rest))
      else if 2 ≤ clocks (early ++ .clock :: rest) then [(2, true)] else [] := by
  obtain ⟨hm, ho, hg, hs⟩ := writeCount_completed hmode hcomplete value
  obtain ⟨hearly, hrest⟩ := (along_append _ _ _).mp hleaves
  have hlive := exec_quiet early hm (hg.trans hgate) hquiet hearly
  obtain ⟨hm', -, ho', hg', hs', -⟩ := live_eq_iff.mp hlive
  obtain ⟨d, hd⟩ : ∃ d, exec handle early (c.writeCount value) = d := ⟨_, rfl⟩
  rw [hd] at hm' ho' hg' hs' hrest ⊢
  -- the first clock loads what is programmed by then
  have hload : d.step.1 = d.load := by
    rw [step, hs', hs]
  have hlevel {t : ℕ} (ht : t ≤ clocks rest) :
      outAt (early ++ .clock :: rest) (c.writeCount value) (t + 1) = (d.load.after t).out := by
    rw [(outAt_first_clock early rest hquiet t).1, hd, hload]
    exact outAt_loaded rest (hm'.trans hm) (hg'.trans (hg.trans hgate)) CounterState.noConfusion rfl
      (hload ▸ hrest.2) ht
  have hclocks := (outAt_first_clock (c := c) early rest hquiet 0).2
  have hzero : outAt (early ++ .clock :: rest) (c.writeCount value) 0 = c.out := by
    rw [← ho]
    cases early <;> rfl
  have hpos := d.programmedClocks_pos
  cases hout : c.out with
  | true =>
    rw [if_pos rfl]
    refine changes_pulse (Nat.succ_pos _) fun t ht => ?_
    cases t with
    | zero =>
      rw [hzero, hout, decide_eq_true (by omega)]
    | succ t =>
      rw [hlevel (by omega), strobe_level (c := d.load) (hm'.trans hm) rfl (hg'.trans (hg.trans hgate))
        (ho'.trans (ho.trans hout)) hpos, decide_eq_decide]
      change t ≠ d.programmedClocks ↔ _
      omega
  | false =>
    rw [if_neg (by decide)]
    refine changes_rise (by decide) fun t ht => ?_
    cases t with
    | zero =>
      rw [hzero, hout]
      rfl
    | succ t =>
      rw [hlevel (by omega), lost_level (c := d.load) (hm'.trans hm) rfl (hg'.trans (hg.trans hgate))
        (ho'.trans (ho.trans hout)), decide_eq_decide]
      omega

/-- The changes of OUT from its first fall on: the end of a strobe that is under way is not counted. -/
def fromFall (trace : List (ℕ × Bool)) : List (ℕ × Bool) := trace.dropWhile Prod.snd

theorem fromFall_pulse (start n : ℕ) : fromFall (pulse start n) = pulse start n := by
  unfold fromFall pulse
  by_cases h : start ≤ n
  · rw [if_pos h]
    rfl
  · rw [if_neg h, if_neg (by omega)]
    rfl

/-- A completed count of mode 4, with the GATE high and whatever follows it but another count or
programming: OUT falls for one clock, which starts as many clocks after the load as the count
counts, and at no other time, if and only if OUT was high when the count was written and what is
loaded still counts the same. -/
theorem strobe_law_iff (hmode : c.mode = 4) (hgate : c.gate = true) (hcomplete : c.Completes)
    (value : UInt8) {early late : List Event} (hquiet : .clock ∉ early)
    (hleaves : Along handle Leaves (early ++ .clock :: late) (c.writeCount value)) :
    (∀ more, fromFall (changes
        (outAt (early ++ .clock :: (late ++ List.replicate more .clock)) (c.writeCount value))
        (clocks (early ++ .clock :: (late ++ List.replicate more .clock)))) =
      pulse ((c.writeCount value).programmedClocks + 1)
        (clocks (early ++ .clock :: (late ++ List.replicate more .clock)))) ↔
    c.out = true ∧ (exec handle early (c.writeCount value)).programmedClocks =
      (c.writeCount value).programmedClocks := by
  have hall (more : ℕ) : Along handle Leaves (early ++ .clock :: (late ++ List.replicate more .clock))
      (c.writeCount value) := by
    rw [show early ++ .clock :: (late ++ List.replicate more .clock) =
      (early ++ .clock :: late) ++ List.replicate more .clock by simp, along_append]
    exact ⟨hleaves, along_replicate more _⟩
  have hform (more : ℕ) := changes_after_count hmode hgate hcomplete value hquiet (hall more)
  have hclocks (more : ℕ) : clocks (early ++ .clock :: (late ++ List.replicate more .clock)) =
      clocks late + more + 1 := by
    rw [(outAt_first_clock (c := c) early _ hquiet 0).2, clocks_replicate]
  constructor
  · intro hlaw
    -- long enough for the strobe that is due and for the one that comes
    have hlong := hlaw ((c.writeCount value).programmedClocks +
      (exec handle early (c.writeCount value)).programmedClocks + 1)
    rw [hform, hclocks] at hlong
    cases hout : c.out with
    | true =>
      rw [hout, if_pos rfl, fromFall_pulse, pulse_of_lt (by omega), pulse_of_lt (by omega)] at hlong
      have hstart := (Prod.mk.inj (List.cons.inj hlong).1).1
      exact ⟨rfl, Nat.add_right_cancel hstart⟩
    | false =>
      -- the strobe under way ends, and no other comes
      rw [hout, if_neg (by decide), if_pos (by omega), pulse_of_lt (by omega)] at hlong
      cases hlong
  · rintro ⟨hout, hsame⟩ more
    rw [hform, hout, if_pos rfl, hsame, fromFall_pulse]

end Law

/-- A count of three, written with OUT high, and ten clocks after the one that loads it. -/
theorem count_of_three_strobes :
    let c := exec handle [.writeControl 0x18 0] powerOn
    fromFall (changes (outAt (List.replicate 11 .clock) (c.writeCount 3)) 11) =
      [(4, false), (5, true)] := by
  have hquiet : Event.clock ∉ ([] : List Event) := List.not_mem_nil
  have hlaw := (strobe_law_iff rfl rfl (fun h => RwMode.noConfusion h) 3 hquiet
    (show Along handle Leaves ([] ++ .clock :: [])
      ((exec handle [.writeControl 0x18 0] powerOn).writeCount 3) from ⟨trivial, trivial⟩)).mpr
    ⟨rfl, rfl⟩ 10
  exact hlaw

/-- A count of five is written during the strobe of a count of two: OUT only comes back high. A count
of 0x0102 is written, and the low byte of the next one before the clock that loads it: the strobe
comes as for a count of 0x0105. -/
theorem strobe_lost :
    let c := exec handle [.writeControl 0x18 0, .writeCount 2, .clock, .clock, .clock] powerOn
    let d := exec handle [.writeControl 0x38 0, .writeCount 2] powerOn
    (c.mode = 4 ∧ c.gate = true ∧ c.out = false ∧
      changes (outAt (List.replicate 40 .clock) (c.writeCount 5)) 40 = [(2, true)] ∧
      fromFall (changes (outAt (List.replicate 40 .clock) (c.writeCount 5)) 40) = []) ∧
    (d.mode = 4 ∧ d.gate = true ∧ (d.writeCount 1).programmedClocks = 0x0102 ∧
      changes (outAt (.writeCount 5 :: List.replicate 300 .clock) (d.writeCount 1)) 300 =
        [(0x0106, false), (0x0107, true)]) := by
  decide +kernel

end IzarraVM.Timer.Counter
