import IzarraVM.RtcSafety

/-! The interrupt request bit of Register C. -/
namespace IzarraVM.Cmos

open Checked Timeline

theorem or_and_ne_zero (a b m : UInt8) :
    (a ||| b) &&& m ≠ 0 ↔ a &&& m ≠ 0 ∨ b &&& m ≠ 0 := by
  have hsplit : (a ||| b) &&& m = (a &&& m) ||| (b &&& m) := by
    apply UInt8.eq_of_toBitVec_eq
    simp only [UInt8.toBitVec_and, UInt8.toBitVec_or, BitVec.and_or_distrib_right]
  rw [hsplit, ne_eq, UInt8.or_eq_zero_iff]
  tauto

def gated (flags enables : UInt8) : Bool :=
  (flags &&& regCPf ≠ 0 ∧ enables &&& regBPie ≠ 0) ∨
    (flags &&& regCAf ≠ 0 ∧ enables &&& regBAie ≠ 0) ∨
    (flags &&& regCUf ≠ 0 ∧ enables &&& regBUie ≠ 0)

theorem gated_or (a b enables : UInt8) :
    gated (a ||| b) enables = (gated a enables || gated b enables) := by
  rw [Bool.eq_iff_iff]
  simp only [gated, or_and_ne_zero, Bool.or_eq_true, decide_eq_true_eq]
  tauto

theorem gated_zero (enables : UInt8) : gated 0 enables = false := by
  simp [gated]

/-- The format bits that are forced are no enables. -/
theorem gated_forced (flags enables : UInt8) :
    gated flags (enables ||| regBDefault) = gated flags enables := by
  have hperiodic : regBDefault &&& regBPie = 0 := by decide
  have halarm : regBDefault &&& regBAie = 0 := by decide
  have hupdate : regBDefault &&& regBUie = 0 := by decide
  simp only [gated, or_and_ne_zero, hperiodic, halarm, hupdate, ne_eq, not_true_eq_false, or_false]

namespace Rtc

variable (r : Rtc)

def irqf : Bool := r.reg 0x0c &&& regCIrqf ≠ 0

def requested : Bool := gated (r.reg 0x0c) (r.reg 0x0b)

theorem reg_setReg (i j : Fin 64) (value : UInt8) :
    (r.setReg i value).reg j = if i = j then value else r.reg j := by
  change (r.ram.set i.val value i.isLt)[j.val] = _
  rw [Vector.getElem_set]
  simp only [Fin.ext_iff]
  rfl

theorem reg_setReg_self (i : Fin 64) (value : UInt8) : (r.setReg i value).reg i = value := by
  rw [reg_setReg, if_pos rfl]

theorem reg_setReg_of_ne {i j : Fin 64} {value : UInt8} (h : i ≠ j) :
    (r.setReg i value).reg j = r.reg j := by
  rw [reg_setReg, if_neg h]

def status : UInt8 × UInt8 := (r.reg 0x0b, r.reg 0x0c)

def Lawful : Prop := r.irqf = r.requested

instance : Decidable r.Lawful := inferInstanceAs (Decidable (r.irqf = r.requested))

theorem lawful_congr {r r' : Rtc} (h : r'.status = r.status) : r'.Lawful ↔ r.Lawful := by
  obtain ⟨hb, hc⟩ := Prod.mk.inj h
  simp only [Lawful, irqf, requested, hb, hc]

theorem status_setReg {i : Fin 64} (hb : i ≠ 0x0b) (hc : i ≠ 0x0c) (value : UInt8) :
    (r.setReg i value).status = r.status := by
  simp only [status, reg_setReg, if_neg hb, if_neg hc]

theorem status_writeTimeRegisters : r.writeTimeRegisters.status = r.status := by
  simp only [writeTimeRegisters]
  repeat rw [status_setReg _ (by decide) (by decide)]

theorem status_writeRam {i : ℕ} {value : UInt8} {r' : Rtc} (hb : i ≠ 0x0b) (hc : i ≠ 0x0c)
    (h : r.writeRam i value = .ok r') : r'.status = r.status := by
  unfold writeRam at h
  split_ifs at h with hi
  cases h
  apply status_setReg
  · exact fun heq => hb (congrArg Fin.val heq)
  · exact fun heq => hc (congrArg Fin.val heq)

theorem status_readTimeRegisters {r' : Rtc} (h : r.readTimeRegisters = .ok r') :
    r'.status = r.status := by
  unfold readTimeRegisters at h
  obtain ⟨_, -, h⟩ := of_bind_ok h
  obtain ⟨_, -, h⟩ := of_bind_ok h
  cases h
  rfl

theorem status_refreshChecksum : r.refreshChecksum.status = r.status := by
  simp only [refreshChecksum]
  repeat rw [status_setReg _ (by decide) (by decide)]

theorem status_tickSeconds {tick : Time → ℕ → Except Slip Time} {n : ℕ} {r' : Rtc}
    (h : r.tickSecondsBy tick n = .ok r') : r'.status = r.status := by
  unfold tickSecondsBy at h
  split_ifs at h
  · cases h
    rfl
  · obtain ⟨_, -, h⟩ := of_bind_ok h
    cases h
    exact status_writeTimeRegisters _

section Latch

variable {flags : UInt8}

theorem gated_irqf (enables : UInt8) : gated regCIrqf enables = false := by
  have hperiodic : regCIrqf &&& regCPf = 0 := by decide
  have halarm : regCIrqf &&& regCAf = 0 := by decide
  have hupdate : regCIrqf &&& regCUf = 0 := by decide
  simp [gated, hperiodic, halarm, hupdate]

structure Latched (r : Rtc) (flags : UInt8) (result : Bool × Rtc) : Prop where
  raised : result.1 = (gated flags (r.reg 0x0b) && !r.irqf)
  irqf : result.2.irqf = (r.irqf || gated flags (r.reg 0x0b))
  requested : result.2.requested = (r.requested || gated flags (r.reg 0x0b))
  others : ∀ i, i ≠ 0x0c → result.2.reg i = r.reg i

/-- The flags themselves do not hold the request bit. -/
theorem latched_spec (hflags : flags &&& regCIrqf = 0) :
    Latched r flags (r.latchInterruptFlags flags) := by
  unfold latchInterruptFlags
  by_cases hzero : flags = 0
  · rw [if_pos hzero, hzero]
    refine ⟨?_, ?_, ?_, fun _ _ => rfl⟩
    · rw [gated_zero, Bool.false_and]
    · rw [gated_zero, Bool.or_false]
    · rw [gated_zero, Bool.or_false]
  rw [if_neg hzero]
  dsimp only
  have henables : (r.setReg 0x0c (r.reg 0x0c ||| flags)).reg 0x0b = r.reg 0x0b := by
    rw [reg_setReg, if_neg (by decide)]
  have hkept : (r.reg 0x0c ||| flags) &&& regCIrqf ≠ 0 ↔ r.reg 0x0c &&& regCIrqf ≠ 0 := by
    rw [or_and_ne_zero, hflags]
    simp
  rw [henables]
  by_cases hgated : gated flags (r.reg 0x0b) = true
  · have henabled := of_decide_eq_true hgated
    rw [if_pos henabled]
    refine ⟨?_, ?_, ?_, fun i hi => ?_⟩
    · rw [hgated, Bool.true_and]
      simp only [henabled, true_and, irqf]
      by_cases hpending : r.reg 0x0c &&& regCIrqf ≠ 0 <;> simp [hpending]
    · rw [hgated, Bool.or_true]
      simp only [irqf, reg_setReg, if_true, or_and_ne_zero]
      simp [regCIrqf]
    · simp only [requested, reg_setReg, if_true, gated_or, gated_irqf, hgated, Bool.or_true,
        Bool.true_or, show ¬ (0x0c : Fin 64) = 0x0b by decide, if_false]
    · rw [reg_setReg, if_neg (Ne.symm hi), reg_setReg, if_neg (Ne.symm hi)]
  · have hdisabled := fun h => hgated (decide_eq_true h)
    have hfalse : gated flags (r.reg 0x0b) = false := Bool.eq_false_iff.mpr hgated
    rw [if_neg hdisabled]
    refine ⟨?_, ?_, ?_, fun i hi => ?_⟩
    · rw [hfalse, Bool.false_and]
      exact decide_eq_false fun h => hdisabled h.1
    · rw [hfalse, Bool.or_false]
      simp only [irqf, reg_setReg, if_true]
      exact decide_eq_decide.mpr hkept
    · simp only [requested, reg_setReg, if_true, gated_or, hfalse,
        show ¬ (0x0c : Fin 64) = 0x0b by decide, if_false]
    · rw [reg_setReg, if_neg (Ne.symm hi)]

end Latch

def dueFlags (periodic update alarm : Prop) [Decidable periodic] [Decidable update]
    [Decidable alarm] : UInt8 :=
  (if periodic then regCPf else 0) ||| (if update then regCUf else 0) |||
    (if alarm then regCAf else 0)

theorem dueFlags_irqf (periodic update alarm : Prop) [Decidable periodic] [Decidable update]
    [Decidable alarm] : dueFlags periodic update alarm &&& regCIrqf = 0 := by
  unfold dueFlags
  split_ifs <;> decide

/-- A clock advance latches its flags after the date has moved. -/
theorem advance_status {masterTicks elapsedSeconds : ℕ} {result : Bool × Rtc}
    (h : r.advanceMasterTicks masterTicks elapsedSeconds = .ok result) :
    ∃ ticked flags, ticked.status = r.status ∧ Latched ticked flags result := by
  unfold advanceMasterTicks advanceMasterTicksBy at h
  obtain ⟨ticked, hticked, h⟩ := of_bind_ok h
  cases h
  have hstatus := r.status_tickSeconds hticked
  exact ⟨{ ticked with
      periodicPhase := (ticked.periodicPhase.advance masterTicks ticked.periodicRateHz).2 }, _,
    hstatus, latched_spec _ (dueFlags_irqf _ _ _)⟩

def Steady : Event → Prop
  | .writePort port value => port = 0x71 → (r.index &&& 0x7f).toNat = regB →
      gated (r.reg 0x0c) value = gated (r.reg 0x0c) (r.reg 0x0b)
  | .setPeriodicInterruptEnabled true =>
      gated (r.reg 0x0c) (r.reg 0x0b ||| regBPie) = gated (r.reg 0x0c) (r.reg 0x0b)
  | .setPeriodicInterruptEnabled false =>
      gated (r.reg 0x0c) (r.reg 0x0b &&& ~~~regBPie) = gated (r.reg 0x0c) (r.reg 0x0b)
  | .setAlarm _ _ _ => r.reg 0x0b &&& regBAie = 0 →
      gated (r.reg 0x0c) (r.reg 0x0b &&& ~~~0x80 ||| regBAie) = gated (r.reg 0x0c) (r.reg 0x0b)
  | .cancelAlarm =>
      gated (r.reg 0x0c) (r.reg 0x0b &&& ~~~(regBAie ||| 0x80)) = gated (r.reg 0x0c) (r.reg 0x0b)
  | .loadNvram bytes =>
      (bytes.get 0x2e).toNat * 256 + (bytes.get 0x2f).toNat =
        checksumFor bytes →
      decide (bytes.get 0x0c &&& regCIrqf ≠ 0) =
        gated (bytes.get 0x0c) (bytes.get 0x0b)
  | _ => True

/-- New enables under the same flags keep the law exactly if they gate the same request. -/
theorem lawful_enables (h : r.Lawful) (enables : UInt8) : (r.setReg 0x0b enables).Lawful ↔
    gated (r.reg 0x0c) enables = gated (r.reg 0x0c) (r.reg 0x0b) := by
  have hflags : (r.setReg 0x0b enables).reg 0x0c = r.reg 0x0c := r.reg_setReg_of_ne (by decide)
  have hirqf : (r.setReg 0x0b enables).irqf = r.irqf := by
    simp only [irqf, hflags]
  rw [Lawful, hirqf, show r.irqf = gated (r.reg 0x0c) (r.reg 0x0b) from h, requested, hflags,
    reg_setReg_self]
  exact eq_comm

/-- Only a write of Register B itself touches the two registers. -/
theorem writeRegister_status {register : ℕ} {value : UInt8} {r' : Rtc} (hne : register ≠ regB)
    (h : r.writeRegister register value = .ok r') : r'.status = r.status := by
  by_cases hreg : regD < register
  · have hlow : regD = 13 := rfl
    rw [writeRegister_nvram hreg] at h
    obtain ⟨written, hwritten, h⟩ := of_bind_ok h
    have hstatus := r.status_writeRam hne (by omega) hwritten
    split_ifs at h
    · exact ((status_readTimeRegisters _ h).trans
        (status_setReg _ (by decide) (by decide) _)).trans hstatus
    · cases h
      exact hstatus
  have hsmall : register ≤ 13 := Nat.le_of_not_lt hreg
  have hram {i : Fin 64} (hb : i ≠ 0x0b) (hc : i ≠ 0x0c) {value : UInt8} {r' : Rtc}
      (h : Except.ok (ε := Slip) (r.setReg i value) = .ok r') : r'.status = r.status := by
    cases h
    exact status_setReg _ hb hc _
  have hsame {time : Time} {r' : Rtc} (h : Except.ok (ε := Slip) { r with time } = .ok r') :
      r'.status = r.status := by
    cases h
    rfl
  clear hreg
  interval_cases register
  · exact hsame h
  · exact hram (by decide) (by decide) h
  · exact hsame h
  · exact hram (by decide) (by decide) h
  · exact hsame h
  · exact hram (by decide) (by decide) h
  · exact hsame h
  · exact hsame h
  · exact hsame h
  · -- the year: the sum is checked, and the RAM is not touched
    have hyear : r.writeRegister regYear value =
        (add 16 (r.time.year / 100 * 100) (value.toNat % 100)).bind
          fun year => .ok { r with time := { r.time with year } } := rfl
    change r.writeRegister regYear value = .ok r' at h
    rw [hyear] at h
    obtain ⟨year, -, h⟩ := of_bind_ok h
    exact hsame h
  · cases h
    exact status_setReg _ (by decide) (by decide) _
  · exact absurd rfl hne
  · cases h
    rfl
  · cases h
    rfl

theorem writeData_status {value : UInt8} {r' : Rtc} (hne : (r.index &&& 0x7f).toNat ≠ regB)
    (h : r.writeData value = .ok r') : r'.status = r.status := by
  unfold writeData at h
  obtain ⟨written, hwritten, h⟩ := of_bind_ok h
  have hstatus := r.writeRegister_status hne hwritten
  cases h
  split_ifs
  · exact (status_writeTimeRegisters _).trans hstatus
  · exact hstatus

theorem writeData_enables {value : UInt8} (hb : (r.index &&& 0x7f).toNat = regB) :
    r.writeData value = .ok (r.setReg 0x0b (value ||| regBDefault)) := by
  unfold writeData
  rw [hb]
  rfl

theorem writePort_lawful {port : ℕ} {value : UInt8} {r' : Rtc} (hlaw : r.Lawful)
    (h : r.writePort port value = .ok r') : r'.Lawful ↔ r.Steady (.writePort port value) := by
  unfold writePort at h
  split_ifs at h with hindex hdata
  · cases h
    refine iff_of_true hlaw fun hport => ?_
    rw [hindex] at hport
    cases hport
  · by_cases hb : (r.index &&& 0x7f).toNat = regB
    · rw [r.writeData_enables hb] at h
      cases h
      rw [r.lawful_enables hlaw, gated_forced]
      exact ⟨fun hsame _ _ => hsame, fun hsteady => hsteady hdata hb⟩
    · rw [lawful_congr (r.writeData_status hb h)]
      exact iff_of_true hlaw fun _ hb' => absurd hb' hb
  · cases h
    exact iff_of_true hlaw fun hport => absurd hport hdata

/-- Reading Register C clears the bit with the flags. -/
theorem readData_lawful {result : UInt8 × Rtc} (hlaw : r.Lawful)
    (h : r.readData = .ok result) : result.2.Lawful := by
  unfold readData at h
  obtain ⟨byte, -, h⟩ := of_bind_ok h
  cases h
  dsimp only
  split_ifs
  · simp only [Lawful, irqf, requested, reg_setReg, if_true, UInt8.zero_and, gated_zero]
    rfl
  · exact hlaw

theorem readPort_lawful {port : ℕ} {result : Option UInt8 × Rtc} (hlaw : r.Lawful)
    (h : r.readPort port = .ok result) : result.2.Lawful := by
  unfold readPort at h
  by_cases hindex : port = 0x70
  · rw [if_pos hindex] at h
    cases h
    exact hlaw
  rw [if_neg hindex] at h
  by_cases hdata : port = 0x71
  · rw [if_pos hdata] at h
    obtain ⟨read, hread, h⟩ := of_bind_ok h
    cases h
    exact r.readData_lawful hlaw hread
  · rw [if_neg hdata] at h
    cases h
    exact hlaw

/-- An image that is taken over brings its own flags and enables. -/
theorem loadNvram_good {bytes : Vector UInt8 64} {result : Bool × Rtc}
    (hsum : (bytes.get 0x2e).toNat * 256 + (bytes.get 0x2f).toNat =
      checksumFor bytes) (h : r.loadNvram bytes = .ok result) :
    result.2.status = (bytes.get 0x0b ||| regBDefault, bytes.get 0x0c) := by
  unfold loadNvram at h
  dsimp only at h
  rw [if_neg (not_not.mpr hsum)] at h
  obtain ⟨read, hread, h⟩ := of_bind_ok h
  cases h
  rw [status_setReg _ (by decide) (by decide), status_readTimeRegisters _ hread,
    status_setReg _ (by decide) (by decide)]
  -- the century is filled in apart from both
  split_ifs
  · simp only [status, reg_setReg]
    rfl
  · simp only [status, reg_setReg]
    rfl

/-- An image that is not leaves them. -/
theorem loadNvram_bad {bytes : Vector UInt8 64} {result : Bool × Rtc}
    (hsum : ¬ (bytes.get 0x2e).toNat * 256 + (bytes.get 0x2f).toNat =
      checksumFor bytes) (h : r.loadNvram bytes = .ok result) :
    result.2.status = (r.reg 0x0b ||| regBDefault, r.reg 0x0c) := by
  unfold loadNvram at h
  dsimp only at h
  rw [if_pos hsum] at h
  cases h
  refine (status_refreshChecksum _).trans ?_
  rw [status_setReg _ (by decide) (by decide)]
  simp only [status, reg_setReg]
  rfl

theorem loadNvram_lawful {bytes : Vector UInt8 64} {result : Bool × Rtc} (hlaw : r.Lawful)
    (h : r.loadNvram bytes = .ok result) : result.2.Lawful ↔ r.Steady (.loadNvram bytes) := by
  by_cases hsum : (bytes.get 0x2e).toNat * 256 + (bytes.get 0x2f).toNat = checksumFor bytes
  · obtain ⟨hb, hc⟩ := Prod.mk.inj (r.loadNvram_good hsum h)
    rw [Lawful, irqf, requested, hb, hc, gated_forced]
    exact ⟨fun hsame _ => hsame, fun hsteady => hsteady hsum⟩
  · obtain ⟨hb, hc⟩ := Prod.mk.inj (r.loadNvram_bad hsum h)
    refine iff_of_true ?_ fun heq => absurd heq hsum
    rw [Lawful, irqf, requested, hb, hc, gated_forced]
    exact hlaw

/-- A step keeps the law exactly if it is steady. -/
theorem step_lawful {e : Event} {r' : Rtc} (hlaw : r.Lawful) (h : r.step e = .ok r') :
    r'.Lawful ↔ r.Steady e := by
  cases e with
  | writePort port value => exact r.writePort_lawful hlaw h
  | readPort port =>
    obtain ⟨result, hread, rfl⟩ := of_map_ok h
    exact iff_of_true (r.readPort_lawful hlaw hread) trivial
  | advance masterTicks elapsedSeconds =>
    obtain ⟨result, hadvance, rfl⟩ := of_map_ok h
    obtain ⟨ticked, flags, hstatus, hlatched⟩ := r.advance_status hadvance
    have hticked : ticked.irqf = ticked.requested := (lawful_congr hstatus).mpr hlaw
    refine iff_of_true ?_ trivial
    change result.2.irqf = result.2.requested
    rw [hlatched.irqf, hlatched.requested, hticked]
  | setPeriodicInterruptEnabled enabled =>
    cases h
    cases enabled with
    | true => exact r.lawful_enables hlaw _
    | false => exact r.lawful_enables hlaw _
  | setAlarm hour minute second =>
    cases h
    unfold setAlarm
    split_ifs with harmed
    · exact iff_of_true hlaw fun hoff => absurd hoff harmed
    · -- the three alarm bytes do not touch the flags or the enables
      have hstatus : (((r.setReg 0x05 hour).setReg 0x03 minute).setReg 0x01 second).status =
          r.status := by
        repeat rw [status_setReg _ (by decide) (by decide)]
      obtain ⟨hb, hc⟩ := Prod.mk.inj hstatus
      rw [lawful_enables _ ((lawful_congr hstatus).mpr hlaw), gated_forced, hb, hc]
      exact ⟨fun hsame _ => hsame, fun hsteady => hsteady (not_not.mp harmed)⟩
  | cancelAlarm =>
    cases h
    rw [cancelAlarm, r.lawful_enables hlaw, gated_forced]
    exact Iff.rfl
  | setCentury century =>
    have hstatus := (status_readTimeRegisters _ h).trans
      ((status_setReg _ (by decide) (by decide) _).trans (status_setReg r (by decide) (by decide) _))
    rw [lawful_congr hstatus]
    exact iff_of_true hlaw trivial
  | seed year month day weekday hour minute second =>
    cases h
    refine iff_of_true ((lawful_congr ?_).mpr hlaw) trivial
    exact status_writeTimeRegisters _
  | loadNvram bytes =>
    obtain ⟨result, hload, rfl⟩ := of_map_ok h
    exact r.loadNvram_lawful hlaw hload

/-- A step that fails does not touch Register B. -/
theorem steady_of_error {e : Event} {slip : Slip} (h : r.step e = .error slip) : r.Steady e := by
  cases e with
  | writePort port value =>
    intro hport hb
    subst hport
    have hok : r.step (.writePort 0x71 value) = .ok (r.setReg 0x0b (value ||| regBDefault)) :=
      r.writeData_enables hb
    rw [hok] at h
    cases h
  | loadNvram bytes =>
    intro hsum
    have hok : ∃ valid r', r.loadNvram bytes = .ok (valid, r') ∧ r'.time.Valid := by
      unfold loadNvram
      dsimp only
      rw [if_neg (not_not.mpr hsum)]
      exact readTimeRegisters_bind _ fun _ => rfl
    obtain ⟨valid, r', hload, -⟩ := hok
    rw [step, hload] at h
    cases h
  | setPeriodicInterruptEnabled enabled => cases h
  | setAlarm hour minute second => cases h
  | cancelAlarm => cases h
  | readPort port => trivial
  | advance masterTicks elapsedSeconds => trivial
  | setCentury century => trivial
  | seed year month day weekday hour minute second => trivial

end Rtc

end IzarraVM.Cmos
