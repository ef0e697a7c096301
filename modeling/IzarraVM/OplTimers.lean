import IzarraVM.OplChip

/-! The chip's hardware timers: steps add up, and an overflow comes once in every period. -/
namespace IzarraVM.Opl
open Function (update)

namespace Timer

variable {t : Timer} {p : UInt8}

@[simp] theorem countUp_stepUs : (countUp p t).stepUs = t.stepUs := by
  unfold countUp
  split_ifs <;> rfl

theorem countUp_running : (countUp p t).running = t.running := by
  unfold countUp
  split_ifs <;> rfl

def holding (t : Timer) (a : ℕ) : Timer := { t with accumulatedUs := a }

@[simp] theorem holding_count (a : ℕ) : (t.holding a).count = t.count := rfl

@[simp] theorem holding_expired (a : ℕ) : (t.holding a).expired = t.expired := rfl

theorem countUp_holding (a : ℕ) : countUp p (t.holding a) = (countUp p t).holding a := by
  unfold countUp holding
  split_ifs <;> rfl

theorem iterate_holding (a n : ℕ) :
    (countUp p)^[n] (t.holding a) = ((countUp p)^[n] t).holding a := by
  induction n generalizing t with
  | zero => rfl
  | succ n ih => rw [Function.iterate_succ_apply, Function.iterate_succ_apply, countUp_holding, ih]

@[simp] theorem iterate_stepUs (n : ℕ) : ((countUp p)^[n] t).stepUs = t.stepUs := by
  induction n with
  | zero => rfl
  | succ n ih => rw [Function.iterate_succ_apply', countUp_stepUs, ih]

@[simp] theorem iterate_running (n : ℕ) : ((countUp p)^[n] t).running = t.running := by
  induction n with
  | zero => rfl
  | succ n ih => rw [Function.iterate_succ_apply', countUp_running, ih]

/-- A count has passed 0xff as soon as it was far enough for it; the reload does not matter. -/
theorem iterate_expired (n : ℕ) (hcount : t.count ≤ 0xff) :
    ((countUp p)^[n] t).expired = (t.expired || decide (0xff < t.count + n)) := by
  induction n generalizing t with
  | zero => simp [hcount]
  | succ n ih =>
    rw [Function.iterate_succ_apply, countUp]
    split_ifs with hpast
    · rw [ih (Nat.le_of_lt_succ p.toNat_lt)]
      simp only [Bool.true_or, decide_eq_true (show 0xff < t.count + (n + 1) by omega), Bool.or_true]
    · rw [ih (Nat.le_of_not_lt hpast), Nat.add_assoc, Nat.add_comm 1]

theorem iterate_count_le (n : ℕ) (hcount : t.count ≤ 0xff) : ((countUp p)^[n] t).count ≤ 0xff := by
  induction n generalizing t with
  | zero => exact hcount
  | succ n ih =>
    rw [Function.iterate_succ_apply, countUp]
    split_ifs with hpast
    · exact ih (Nat.le_of_lt_succ p.toNat_lt)
    · exact ih (Nat.le_of_not_lt hpast)

/-- From the preset on, counts go round in `256 - p`. -/
theorem iterate_count {j : ℕ} (n : ℕ) (hcount : t.count = p.toNat + j)
    (hj : j < 256 - p.toNat) :
    ((countUp p)^[n] t).count = p.toNat + (j + n) % (256 - p.toNat) := by
  induction n generalizing t j with
  | zero => rw [Nat.add_zero, Nat.mod_eq_of_lt hj, Function.iterate_zero_apply, hcount]
  | succ n ih =>
    rw [Function.iterate_succ_apply, countUp]
    split_ifs with hpast
    · have hlast : j + 1 = 256 - p.toNat := by omega
      rw [ih (j := 0) rfl (by omega), ← Nat.add_assoc, Nat.add_right_comm, hlast,
        Nat.add_mod_left, Nat.zero_add]
    · rw [ih (j := j + 1) (by rw [hcount, Nat.add_assoc]) (by omega), Nat.add_assoc,
        Nat.add_comm 1]

/-- The loop counts once for every whole step it finds. -/
theorem drain_eq (hstep : 0 < t.stepUs) (fuel : ℕ) {a : ℕ} (hfuel : a / t.stepUs ≤ fuel) :
    drain p fuel (t.holding a) = ((countUp p)^[a / t.stepUs] t).holding (a % t.stepUs) := by
  induction fuel generalizing t a with
  | zero =>
    have hzero := Nat.le_zero.mp hfuel
    rw [hzero, Nat.mod_eq_of_lt ((Nat.div_eq_zero_iff_lt hstep).mp hzero)]
    rfl
  | succ fuel ih =>
    show (if t.stepUs ≤ a then drain p fuel (countUp p (t.holding (a - t.stepUs)))
      else t.holding a) = _
    by_cases hle : t.stepUs ≤ a
    · have hturn : a / t.stepUs = (a - t.stepUs) / t.stepUs + 1 := Nat.div_eq_sub_div hstep hle
      have hrest := ih (t := countUp p t) (a := a - t.stepUs) (by rwa [countUp_stepUs])
        (by rw [countUp_stepUs]; omega)
      rw [countUp_stepUs, ← countUp_holding] at hrest
      rw [if_pos hle, hturn, Function.iterate_succ_apply, Nat.mod_eq_sub_mod hle]
      exact hrest
    · have hlt := Nat.lt_of_not_le hle
      rw [if_neg hle, Nat.div_eq_of_lt hlt, Nat.mod_eq_of_lt hlt]
      rfl

theorem advance_wrapped (hrun : t.running = true) (hstep : 0 < t.stepUs) (n : ℕ) :
    t.advance n p = ((countUp p)^[(t.accumulatedUs + n) % 2 ^ 64 / t.stepUs] t).holding
      ((t.accumulatedUs + n) % 2 ^ 64 % t.stepUs) := by
  rw [advance, if_pos hrun]
  exact drain_eq hstep _ (Nat.div_le_self _ _)

theorem advance_eq (hrun : t.running = true) (hstep : 0 < t.stepUs) {n : ℕ}
    (hn : t.accumulatedUs + n < 2 ^ 64) :
    t.advance n p = ((countUp p)^[(t.accumulatedUs + n) / t.stepUs] t).holding
      ((t.accumulatedUs + n) % t.stepUs) := by
  rw [advance_wrapped hrun hstep, Nat.mod_eq_of_lt hn]

theorem advance_stopped (hrun : t.running = false) (n : ℕ) : t.advance n p = t := by
  rw [advance, hrun]
  rfl

theorem advance_advance (hstep : 0 < t.stepUs) {a b : ℕ}
    (hab : t.accumulatedUs + (a + b) < 2 ^ 64) :
    (t.advance a p).advance b p = t.advance (a + b) p := by
  cases hrun : t.running with
  | false => rw [advance_stopped hrun, advance_stopped hrun, advance_stopped hrun]
  | true =>
    set total := t.accumulatedUs + a with htotal
    have hsplit : t.accumulatedUs + (a + b) =
        t.stepUs * (total / t.stepUs) + (total % t.stepUs + b) := by
      rw [← Nat.add_assoc, ← Nat.add_assoc, Nat.div_add_mod]
    have hmod : total % t.stepUs ≤ total := Nat.mod_le _ _
    have hnext : (((countUp p)^[total / t.stepUs] t).holding (total % t.stepUs)).advance b p =
        ((countUp p)^[(total % t.stepUs + b) / t.stepUs]
          (((countUp p)^[total / t.stepUs] t).holding (total % t.stepUs))).holding
            ((total % t.stepUs + b) % t.stepUs) := by
      have h := advance_eq (p := p) (n := b)
        (t := ((countUp p)^[total / t.stepUs] t).holding (total % t.stepUs))
      rw [show (((countUp p)^[total / t.stepUs] t).holding (total % t.stepUs)).stepUs = t.stepUs
        from iterate_stepUs _] at h
      exact h ((iterate_running _).trans hrun) hstep (show total % t.stepUs + b < 2 ^ 64 by omega)
    rw [advance_eq hrun hstep hab, advance_eq hrun hstep (by omega), hnext, iterate_holding, hsplit,
      Nat.mul_add_div hstep, Nat.mul_add_mod, ← Function.iterate_add_apply,
      Nat.add_comm (total / t.stepUs)]
    rfl

theorem expiredAfter_eq (hstep : 0 < t.stepUs) (hcount : t.count ≤ 0xff) {n : ℕ}
    (hn : t.accumulatedUs + n < 2 ^ 64) : t.expiredAfter n = (t.advance n p).expired := by
  unfold expiredAfter
  cases hexp : t.expired with
  | true =>
    cases hrun : t.running with
    | false => rw [advance_stopped hrun, hexp, if_pos rfl]
    | true => simp [advance_eq hrun hstep hn, iterate_expired _ hcount, hexp]
  | false =>
    cases hrun : t.running with
    | false => simp [advance_stopped hrun, hexp]
    | true =>
      have hpast (steps : ℕ) : 0xff < min (t.count + steps) (2 ^ 64 - 1) ↔
          0xff < t.count + steps := by omega
      rw [advance_eq hrun hstep hn, holding_expired, iterate_expired _ hcount, hexp, Bool.false_or]
      simp only [hpast, min_eq_left (Nat.le_sub_one_of_lt hn)]
      rfl

end Timer

namespace OplChip

def timer (c : OplChip) : Fin 2 → Timer := ![c.timer1, c.timer2]

end OplChip

def presetIndex : Fin 2 → UInt8 := ![0x02, 0x03]

def startBit : Fin 2 → UInt8 := ![0x01, 0x02]

def stepUs : Fin 2 → ℕ := ![80, 320]

theorem stepUs_pos : ∀ k, 0 < stepUs k := by decide

theorem presetIndex_ne : ∀ k, 0x04 ≠ presetIndex k := by decide

namespace OplChip

variable {c : OplChip}

theorem timer_advanceMicros (n : ℕ) (k : Fin 2) :
    (c.advanceMicros n).timer k = (c.timer k).advance n (c.registers 0 (presetIndex k)) := by
  fin_cases k <;> rfl

/-- What a write does to a timer: nothing outside the control register, where IRQ-RESET clears
its flag and any other value gives it the start bit. -/
theorem timer_writeBank (bank : Fin 2) (index value : UInt8) (k : Fin 2) :
    (c.writeBank bank index value).timer k =
      if bank = 0 ∧ index = 0x04 then
        if value &&& 0x80 ≠ 0 then { c.timer k with expired := false }
        else (c.timer k).control (value &&& startBit k != 0) (c.registers 0 (presetIndex k))
      else c.timer k := by
  unfold writeBank
  split_ifs <;> fin_cases k <;> rfl

theorem registers_writeBank_of_ne {bank : Fin 2} {index index' value : UInt8}
    (h : bank = 0 → index ≠ index') :
    (c.writeBank bank index value).registers 0 index' = c.registers 0 index' := by
  have hstore (d : OplChip) : (d.store bank index value).registers 0 index' =
      d.registers 0 index' := by
    show update d.registers bank _ 0 index' = _
    by_cases hbank : bank = 0
    · subst hbank
      rw [Function.update_self, Function.update_of_ne (h rfl).symm]
    · rw [Function.update_of_ne (Ne.symm hbank)]
  unfold writeBank
  split_ifs
  · rfl
  · exact hstore _
  · exact hstore _

theorem renderSample_timer (c : OplChip) : c.renderSample.registers = c.registers ∧
    c.renderSample.timer = c.timer := by
  obtain ⟨operators, h⟩ := c.renderSample_eq
  rw [h]
  exact ⟨rfl, rfl⟩

structure Timed (c : OplChip) (k : Fin 2) : Prop where
  stepUs : (c.timer k).stepUs = stepUs k
  count : (c.timer k).count ≤ 0xff

def Unsaturated (c : OplChip) (n : ℕ) : Prop := ∀ k, (c.timer k).accumulatedUs + n < 2 ^ 64

theorem Timed.step {k : Fin 2} (h : c.Timed k) (e : Event) : (c.step e).Timed k := by
  cases e with
  | write bank index value =>
    rw [OplChip.step]
    constructor
    · rw [timer_writeBank]
      split_ifs
      · exact h.stepUs
      · rw [Timer.control]
        split_ifs <;> exact h.stepUs
      · exact h.stepUs
    · rw [timer_writeBank]
      split_ifs
      · exact h.count
      · rw [Timer.control]
        split_ifs
        · exact Nat.le_of_lt_succ (UInt8.toNat_lt _)
        · exact h.count
      · exact h.count
  | advance n =>
    rw [OplChip.step]
    have hstep : 0 < (c.timer k).stepUs := h.stepUs ▸ stepUs_pos k
    cases hrun : (c.timer k).running with
    | false =>
      constructor <;> rw [timer_advanceMicros, Timer.advance_stopped hrun]
      exacts [h.stepUs, h.count]
    | true =>
      constructor <;> rw [timer_advanceMicros, Timer.advance_wrapped hrun hstep]
      · exact (Timer.iterate_stepUs _).trans h.stepUs
      · exact Timer.iterate_count_le _ h.count
  | sample =>
    constructor <;> rw [OplChip.step, c.renderSample_timer.2]
    exacts [h.stepUs, h.count]

theorem timed (events : List Event) (k : Fin 2) : (Runs.exec step events default).Timed k := by
  have hstart : default.Timed k := by
    fin_cases k <;> exact ⟨rfl, Nat.zero_le _⟩
  exact List.foldlRecOn (motive := fun c : OplChip => c.Timed k) events step hstart
    fun _ h e _ => h.step e

theorem statusAfter_eq {n : ℕ} (htimed : ∀ k, c.Timed k) (hn : c.Unsaturated n) :
    c.statusAfter n = (c.advanceMicros n).status := by
  have hpeek (k : Fin 2) : (c.timer k).expiredAfter n = ((c.advanceMicros n).timer k).expired := by
    rw [timer_advanceMicros]
    exact Timer.expiredAfter_eq ((htimed k).stepUs ▸ stepUs_pos k) (htimed k).count (hn k)
  show c.statusBits _ _ = c.statusBits _ _
  congr 1
  exacts [hpeek 0, hpeek 1]

theorem advanceMicros_advanceMicros {a b : ℕ} (htimed : ∀ k, c.Timed k)
    (hab : c.Unsaturated (a + b)) :
    (c.advanceMicros a).advanceMicros b = c.advanceMicros (a + b) := by
  have htimer (k : Fin 2) : ((c.advanceMicros a).advanceMicros b).timer k =
      (c.advanceMicros (a + b)).timer k := by
    rw [timer_advanceMicros, timer_advanceMicros, timer_advanceMicros]
    exact Timer.advance_advance ((htimed k).stepUs ▸ stepUs_pos k) (hab k)
  have h0 := htimer 0
  have h1 := htimer 1
  show OplChip.mk _ _ _ _ _ = OplChip.mk _ _ _ _ _
  congr 1

structure Elapsed (c : OplChip) (k : Fin 2) (p : UInt8) (elapsed : ℕ) : Prop where
  running : (c.timer k).running = true
  stepUs : (c.timer k).stepUs = stepUs k
  preset : c.registers 0 (presetIndex k) = p
  count : (c.timer k).count = p.toNat + elapsed / Opl.stepUs k % (256 - p.toNat)
  accumulatedUs : (c.timer k).accumulatedUs = elapsed % Opl.stepUs k

def Undisturbed (k : Fin 2) (c : OplChip) : Event → Prop
  | .write bank index value =>
    (bank = 0 → index = presetIndex k → value = c.registers 0 index) ∧
      (bank = 0 → index = 0x04 → value &&& 0x80 ≠ 0 ∨ value &&& startBit k ≠ 0)
  | .advance n => (c.timer k).accumulatedUs + n < 2 ^ 64
  | .sample => True

/-- A lap of `N` is ended by `k` more exactly when the laps made go up. -/
theorem lap_iff {N q k : ℕ} (hN : 0 < N) : N ≤ q % N + k ↔ q / N < (q + k) / N := by
  have hsplit : q + k = N * (q / N) + (q % N + k) := by rw [← Nat.add_assoc, Nat.div_add_mod]
  rw [hsplit, Nat.mul_add_div hN, Nat.lt_add_right_iff_pos, Nat.div_pos_iff]
  exact ⟨fun h => ⟨hN, h⟩, And.right⟩

variable {k : Fin 2} {p : UInt8} {elapsed n : ℕ}

section

variable (h : c.Elapsed k p elapsed) (hn : (c.timer k).accumulatedUs + n < 2 ^ 64)
include h hn

theorem Elapsed.timer_advance : (c.advanceMicros n).timer k =
      ((Timer.countUp p)^[(elapsed % Opl.stepUs k + n) / Opl.stepUs k] (c.timer k)).holding
        ((elapsed + n) % Opl.stepUs k) := by
  rw [timer_advanceMicros, h.preset,
    Timer.advance_eq h.running (h.stepUs ▸ stepUs_pos k) hn, h.stepUs, h.accumulatedUs,
    Nat.mod_add_mod]

omit h hn in
theorem steps_add (k : Fin 2) (elapsed n : ℕ) : (elapsed + n) / Opl.stepUs k =
    elapsed / Opl.stepUs k + (elapsed % Opl.stepUs k + n) / Opl.stepUs k := by
  rw [← Nat.mul_add_div (stepUs_pos k), ← Nat.add_assoc, Nat.div_add_mod]

theorem Elapsed.advance : (c.advanceMicros n).Elapsed k p (elapsed + n) := by
  have htimer := h.timer_advance hn
  have hp := p.toNat_lt
  constructor
  · rw [htimer]
    exact (Timer.iterate_running _).trans h.running
  · rw [htimer]
    exact (Timer.iterate_stepUs _).trans h.stepUs
  · exact h.preset
  · rw [htimer, Timer.holding_count, Timer.iterate_count _ h.count (Nat.mod_lt _ (by omega)),
      Nat.mod_add_mod, steps_add k elapsed n]
  · rw [htimer]
    rfl

/-- The flag comes up exactly when a whole number of periods is passed. -/
theorem Elapsed.expired_advance : ((c.advanceMicros n).timer k).expired = ((c.timer k).expired ||
      decide (elapsed / ((256 - p.toNat) * Opl.stepUs k) <
        (elapsed + n) / ((256 - p.toNat) * Opl.stepUs k))) := by
  have hp := p.toNat_lt
  have hmod : elapsed / Opl.stepUs k % (256 - p.toNat) < 256 - p.toNat := Nat.mod_lt _ (by omega)
  have hpast : 0xff < (c.timer k).count + (elapsed % Opl.stepUs k + n) / Opl.stepUs k ↔
      elapsed / ((256 - p.toNat) * Opl.stepUs k) <
        (elapsed + n) / ((256 - p.toNat) * Opl.stepUs k) := by
    rw [Nat.mul_comm, ← Nat.div_div_eq_div_mul, ← Nat.div_div_eq_div_mul, steps_add k elapsed n,
      ← lap_iff (by omega), h.count]
    omega
  rw [h.timer_advance hn, Timer.holding_expired,
    Timer.iterate_expired _ (by rw [h.count]; omega)]
  simp only [hpast]

end

theorem Elapsed.start {value : UInt8} (hstep : (c.timer k).stepUs = Opl.stepUs k)
    (hrun : (c.timer k).running = false) (hreset : value &&& 0x80 = 0)
    (hstart : value &&& startBit k ≠ 0) :
    (c.writeBank 0 0x04 value).Elapsed k (c.registers 0 (presetIndex k)) 0 := by
  have htimer : (c.writeBank 0 0x04 value).timer k =
      (c.timer k).start (c.registers 0 (presetIndex k)) := by
    rw [timer_writeBank, if_pos ⟨rfl, rfl⟩, if_neg (not_not_intro hreset), Timer.control, hrun,
      if_pos (by simpa using hstart)]
  constructor
  · rw [htimer]
    rfl
  · rw [htimer]
    exact hstep
  · exact registers_writeBank_of_ne fun _ => presetIndex_ne k
  · rw [htimer, Nat.zero_div, Nat.zero_mod]
    rfl
  · rw [htimer, Nat.zero_mod]
    rfl

/-- The flag is no part of the phase. -/
theorem Elapsed.congr {c' : OplChip} (h : c.Elapsed k p elapsed)
    (htimer : ∃ e, c'.timer k = { c.timer k with expired := e })
    (hpreset : c'.registers 0 (presetIndex k) = p) : c'.Elapsed k p elapsed := by
  obtain ⟨e, he⟩ := htimer
  constructor
  · rw [he]
    exact h.running
  · rw [he]
    exact h.stepUs
  · exact hpreset
  · rw [he]
    exact h.count
  · rw [he]
    exact h.accumulatedUs

theorem Elapsed.write {bank : Fin 2} {index value : UInt8} (h : c.Elapsed k p elapsed)
    (hkept : Undisturbed k c (.write bank index value)) :
    (c.writeBank bank index value).Elapsed k p elapsed := by
  refine h.congr ?_ ?_
  · rw [timer_writeBank]
    split_ifs with hcontrol hreset
    · exact ⟨false, rfl⟩
    · have hbit := (hkept.2 hcontrol.1 hcontrol.2).resolve_left hreset
      refine ⟨(c.timer k).expired, ?_⟩
      rw [Timer.control, h.running, if_neg (by simp)]
      simp only [bne_iff_ne.mpr hbit, ← h.running]
    · exact ⟨_, rfl⟩
  · by_cases hsame : bank = 0 ∧ index = presetIndex k
    · obtain ⟨rfl, rfl⟩ := hsame
      rw [writeBank, if_neg fun hc => presetIndex_ne k hc.2.symm]
      show update c.registers 0 (update (c.registers 0) (presetIndex k) value) 0 _ = p
      rw [Function.update_self, Function.update_self, hkept.1 rfl rfl, h.preset]
    · rw [registers_writeBank_of_ne fun hb hi => hsame ⟨hb, hi⟩, h.preset]

theorem Elapsed.sample (h : c.Elapsed k p elapsed) : c.renderSample.Elapsed k p elapsed := by
  obtain ⟨hregisters, htimer⟩ := c.renderSample_timer
  exact h.congr ⟨_, congrFun htimer k⟩ (by rw [hregisters, h.preset])

end OplChip

def Event.micros : Event → ℕ
  | .advance n => n
  | .write .. | .sample => 0

def elapsed (events : List Event) : ℕ := (events.map Event.micros).sum

namespace OplChip

variable {c : OplChip} {k : Fin 2} {p : UInt8}

theorem Elapsed.run {T : ℕ} (h : c.Elapsed k p T) {later : List Event}
    (hkept : Runs.Along step (Undisturbed k) later c) :
    (Runs.exec step later c).Elapsed k p (T + elapsed later) := by
  induction later generalizing c T with
  | nil => exact h
  | cons e rest ih =>
    have hsum : T + elapsed (e :: rest) = T + e.micros + elapsed rest := by
      rw [elapsed, List.map_cons, List.sum_cons, Nat.add_assoc, elapsed]
    rw [Runs.exec_cons, hsum]
    refine ih ?_ hkept.2
    cases e with
    | write bank index value => exact h.write hkept.1
    | advance n => exact h.advance hkept.1
    | sample => exact h.sample

end OplChip

/-- The status byte peeked `n` microseconds ahead is the one an advance by `n` leaves, advances
add up, and a timer that is started and left alone raises its flag exactly when a whole number
of its periods has passed since the start. -/
theorem timers_exact (events : List Event) :
    let c := Runs.exec OplChip.step events .default
    (∀ n, c.Unsaturated n → c.statusAfter n = (c.advanceMicros n).status) ∧
    (∀ a b, c.Unsaturated (a + b) →
      (c.advanceMicros a).advanceMicros b = c.advanceMicros (a + b)) ∧
    ∀ k value, (c.timer k).running = false → value &&& 0x80 = 0 → value &&& startBit k ≠ 0 →
      ∀ later, Runs.Along OplChip.step (OplChip.Undisturbed k) later (c.writeBank 0 0x04 value) →
        let now := Runs.exec OplChip.step later (c.writeBank 0 0x04 value)
        let period := (256 - (c.registers 0 (presetIndex k)).toNat) * stepUs k
        ∀ n, (now.timer k).accumulatedUs + n < 2 ^ 64 →
          ((now.advanceMicros n).timer k).expired = ((now.timer k).expired ||
            decide (elapsed later / period < (elapsed later + n) / period)) := by
  intro c
  refine ⟨fun n => OplChip.statusAfter_eq (OplChip.timed events),
    fun a b => OplChip.advanceMicros_advanceMicros (OplChip.timed events), ?_⟩
  intro k value hrun hreset hstart later hkept now period n hn
  have hstarted := OplChip.Elapsed.start (OplChip.timed events k).stepUs hrun hreset hstart
  have hnow := hstarted.run hkept
  rw [Nat.zero_add] at hnow
  exact hnow.expired_advance hn

/-- Timer 1 started at 254 counts two steps to the period of 160 microseconds, a flag reset on
the way. -/
theorem timers_exact_at_254 :
    let c := Runs.exec OplChip.step [.write 0 0x02 254] .default
    let later := [Event.advance 150, .write 0 0x04 0x80]
    let now := Runs.exec OplChip.step later (c.writeBank 0 0x04 0x01)
    ((now.advanceMicros 9).timer 0).expired = false ∧
      ((now.advanceMicros 10).timer 0).expired = true := by
  have hlaw := (timers_exact [.write 0 0x02 254]).2.2 0 0x01 (by decide +kernel) (by decide)
    (by decide) [.advance 150, .write 0 0x04 0x80]
    ⟨show _ < 2 ^ 64 by decide +kernel, ⟨by decide +kernel, by decide +kernel⟩, trivial⟩
  refine ⟨(hlaw 9 (by decide +kernel)).trans ?_, (hlaw 10 (by decide +kernel)).trans ?_⟩
  · decide +kernel
  · decide +kernel

end IzarraVM.Opl
