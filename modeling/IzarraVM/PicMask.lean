import IzarraVM.PicAgree

/-! What a request on a masked line of the slave does to the pair. -/
namespace IzarraVM.Interrupts

open Runs

namespace Pic8259Pair

variable (s t : Pic8259Pair) (line : Fin 8)

def interruptPending : Bool := s.masterPending.isSome

def Masked : Prop := hasBit s.slave.imr line = true

instance : Decidable (s.Masked line) := inferInstanceAs (Decidable (hasBit s.slave.imr line = true))

def Silent (requested quiet : Pic8259Pair) : Prop :=
  ∀ events, Throughout step (Masked · line) events requested →
    (exec step events requested).interruptPending = (exec step events quiet).interruptPending ∧
      (exec step events requested).acknowledgeWithIrq.1 =
        (exec step events quiet).acknowledgeWithIrq.1

structure Unseen (quiet requested : Pic8259Pair) : Prop where
  slave : quiet.slave.AgreeOff line requested.slave
  master : quiet.master.Alike quiet.cascadePin requested.master

variable {s t line}

section

variable (h : Unseen line t s)
include h

theorem Unseen.cascadePin : s.cascadePin = t.cascadePin :=
  congrArg levelOf h.slave.icw3

theorem Unseen.exempt : s.masterCascadeExempt = t.masterCascadeExempt := by
  have hsfnm : s.master.sfnm = t.master.sfnm ∧ s.master.icw3 = t.master.icw3 := by
    have hagree := h.master.agree
    generalize s.master = m at hagree ⊢
    cases hagree
    exact ⟨rfl, rfl⟩
  unfold masterCascadeExempt
  rw [h.cascadePin, hsfnm.1, hsfnm.2]

theorem Unseen.masked : s.Masked line ↔ t.Masked line := by
  unfold Masked
  rw [h.slave.imr]

omit h in
theorem exempt_ne_of_mayNest (h : t.master.mayNest t.cascadePin = false) :
    t.masterCascadeExempt ≠ some t.cascadePin := by
  have hnest := Pic.not_nested_of_mayNest h
  unfold masterCascadeExempt
  rw [if_neg (by rw [hnest]; exact Bool.false_ne_true)]
  exact nofun

/-- The hidden request is held back, whatever the exemption of the pair. -/
theorem Unseen.masterPending : s.masterPending = t.masterPending := by
  unfold Pic8259Pair.masterPending
  rw [h.exempt]
  rcases h.master with heq | ⟨hagree, -, hid⟩
  · rw [heq]
  · exact hagree.highestPending (Or.inr ⟨hid.inService, exempt_ne_of_mayNest hid.notNested⟩)

theorem Unseen.slavePending (hmasked : t.Masked line) :
    s.slave.highestPending none = t.slave.highestPending none :=
  h.slave.highestPending (Or.inl hmasked)

theorem Unseen.syncCascade (hmasked : t.Masked line) : Unseen line t.syncCascade s.syncCascade := by
  refine ⟨h.slave, ?_⟩
  have hlevel := h.master.setInputLevel t.cascadePin (t.slave.highestPending none).isSome
  unfold Pic8259Pair.syncCascade
  rw [h.cascadePin, h.slavePending hmasked]
  exact hlevel

theorem Unseen.request (irq : ℕ) : Unseen line (t.request irq) (s.request irq) := by
  unfold Pic8259Pair.request
  split_ifs with hmaster hslave
  · exact ⟨h.slave, h.master.request _⟩
  · refine ⟨h.slave.request _, ?_⟩
    rw [h.cascadePin]
    exact h.master.request _
  · exact h

theorem Unseen.setIrqLevel (hmasked : t.Masked line) (irq : ℕ)
    (asserted : Bool) : Unseen line (t.setIrqLevel irq asserted) (s.setIrqLevel irq asserted) := by
  unfold Pic8259Pair.setIrqLevel
  split_ifs with hmaster hslave
  · exact ⟨h.slave, h.master.setInputLevel _ asserted⟩
  · refine Unseen.syncCascade ⟨h.slave.setInputLevel _ asserted, ?_⟩ ?_
    · have hpin : Pic8259Pair.cascadePin
          { t with slave := t.slave.setInputLevel ⟨irq - 8, hslave⟩ asserted } = t.cascadePin := by
        cases asserted <;> rfl
      rw [hpin]
      exact h.master
    · unfold Masked
      cases asserted <;> exact hmasked
  · exact h

/-- Moving the slave to another pin drops the old one, which ends what it hid. -/
theorem Unseen.writeSlave (port : ℕ) (value : BitVec 8)
    (hmasked : (s.writeSlave port value).Masked line) :
    Unseen line (t.writeSlave port value) (s.writeSlave port value) := by
  have hwritten := Pic.kept_agreeOff.writePort h.slave port value
  have hpin : Pic8259Pair.cascadePin { s with slave := s.slave.writePort port value } =
      Pic8259Pair.cascadePin { t with slave := t.slave.writePort port value } :=
    congrArg levelOf hwritten.icw3
  have hstill : hasBit (t.slave.writePort port value).imr line = true := by
    unfold Masked Pic8259Pair.writeSlave at hmasked
    rw [← hwritten.imr]
    dsimp only at hmasked
    split_ifs at hmasked <;> exact hmasked
  unfold Pic8259Pair.writeSlave
  dsimp only
  rw [hpin, h.cascadePin]
  split_ifs with hmoved
  · refine Unseen.syncCascade ⟨hwritten, ?_⟩ hstill
    have hdropped := h.master.setInputLevel t.cascadePin false
    left
    rcases hdropped with heq | ⟨hagree, hheld, hid⟩
    · exact heq
    · have hlow := hid.held
      rw [Pic.setInputLevel_asserted] at hlow
      cases hlow
  · refine Unseen.syncCascade ⟨hwritten, ?_⟩ hstill
    rw [← not_not.mp hmoved]
    exact h.master

theorem Unseen.writePort (port : ℕ) (value : BitVec 8)
    (hmasked : (s.writePort port value).Masked line) :
    Unseen line (t.writePort port value) (s.writePort port value) := by
  unfold Pic8259Pair.writePort at hmasked ⊢
  split_ifs at hmasked ⊢ with hmaster hslave
  · exact ⟨h.slave, Pic.kept_alike.writePort h.master port value⟩
  · exact h.writeSlave port value hmasked
  · exact h

theorem Unseen.readPort (hmasked : t.Masked line) (port : ℕ) :
    Unseen line (t.readPort port).2 (s.readPort port).2 := by
  unfold Pic8259Pair.readPort
  split_ifs with hmaster hslave
  · refine ⟨h.slave, ?_⟩
    have hpending : s.master.highestPending t.masterCascadeExempt =
        t.master.highestPending t.masterCascadeExempt := by
      have hsame := h.masterPending
      unfold Pic8259Pair.masterPending at hsame
      rw [h.exempt] at hsame
      exact hsame
    have hread := Pic.kept_alike.readPort h.master hpending port
    dsimp only
    rw [h.exempt]
    exact hread
  · have hread := Pic.kept_agreeOff.readPort h.slave
        (h.slave.highestPending (Or.inl hmasked : t.slave.Covered line none)) port
    have hfields := t.slave.readPort_same port none
    have hpin : Pic8259Pair.cascadePin { t with slave := (t.slave.readPort port none).2 } =
        t.cascadePin := congrArg levelOf hfields.1
    refine Unseen.syncCascade ⟨hread, ?_⟩ ?_
    · dsimp only
      rw [hpin]
      exact h.master
    · unfold Masked
      dsimp only
      rw [hfields.2]
      exact hmasked
  · exact h

theorem Unseen.slaveServed (hmasked : t.Masked line) :
    t.slaveServed.AgreeOff line s.slaveServed ∧ hasBit t.slaveServed.imr line = true := by
  unfold Pic8259Pair.slaveServed
  rw [h.slavePending hmasked]
  cases t.slave.highestPending none with
  | none => exact ⟨h.slave, hmasked⟩
  | some level =>
    refine ⟨Pic.kept_agreeOff.setInService h.slave level, ?_⟩
    dsimp only
    rw [(Pic.setInService_same _).2.2.2]
    exact hmasked

/-- An acknowledge gives both pairs the same vector. -/
theorem Unseen.acknowledge (hmasked : t.Masked line) :
    s.acknowledgeWithIrq.1 = t.acknowledgeWithIrq.1 ∧
      Unseen line t.acknowledgeWithIrq.2 s.acknowledgeWithIrq.2 := by
  unfold acknowledgeWithIrq
  rw [h.masterPending]
  cases t.masterPending with
  | none => exact ⟨rfl, h⟩
  | some irq =>
    have hfields : (s.master.setInService irq).icw3 = (t.master.setInService irq).icw3 ∧
        ∀ j, (s.master.setInService irq).vector j = (t.master.setInService irq).vector j := by
      have hagree := (Pic.kept_alike.setInService h.master irq).agree
      generalize s.master.setInService irq = m at hagree ⊢
      cases hagree
      exact ⟨rfl, fun _ => rfl⟩
    have hvector (j : Fin 8) : s.slave.vector j = t.slave.vector j := by
      have hagree := h.slave
      generalize s.slave = m at hagree ⊢
      cases hagree
      rfl
    have hpin : Pic8259Pair.cascadePin { s with master := s.master.setInService irq } =
        Pic8259Pair.cascadePin { t with master := t.master.setInService irq } := h.cascadePin
    dsimp only
    rw [hfields.1, hfields.2, hpin]
    split_ifs
    · exact ⟨rfl, h.slave, Pic.kept_alike.setInService h.master irq⟩
    · rw [h.slavePending hmasked, hvector]
      refine ⟨rfl, ?_⟩
      obtain ⟨hserved, hstill⟩ := h.slaveServed hmasked
      have hsame : Pic8259Pair.cascadePin { t with slave := t.slaveServed } = t.cascadePin :=
        congrArg levelOf slaveServed_icw3
      refine Unseen.syncCascade ⟨hserved, ?_⟩ hstill
      have hmaster := Pic.kept_alike.setInService h.master irq
      rw [← hsame] at hmaster
      exact hmaster

/-- No event tells the pairs apart while the line is masked. -/
theorem Unseen.step (e : Event) (hmasked : t.Masked line)
    (hstill : (s.step e).Masked line) : Unseen line (t.step e) (s.step e) := by
  cases e with
  | request irq => exact h.request irq
  | setIrqLevel irq asserted => exact h.setIrqLevel hmasked irq asserted
  | writePort port value => exact h.writePort port value hstill
  | readPort port => exact h.readPort hmasked port
  | acknowledge => exact (h.acknowledge hmasked).2

theorem Unseen.run (events : List Event)
    (hmasked : Throughout Pic8259Pair.step (Masked · line) events s) :
    Unseen line (exec Pic8259Pair.step events t) (exec Pic8259Pair.step events s) ∧
      (exec Pic8259Pair.step events t).Masked line := by
  induction events generalizing t s with
  | nil => exact ⟨h, h.masked.mp hmasked⟩
  | cons e rest ih =>
    obtain ⟨hnow, hrest⟩ := hmasked
    rw [exec_cons, exec_cons]
    exact ih (h.step e (h.masked.mp hnow) hrest.head) hrest

theorem Unseen.silent : Silent line s t := by
  intro events hmasked
  obtain ⟨hend, hstill⟩ := h.run events hmasked
  refine ⟨?_, (hend.acknowledge hstill).1⟩
  unfold interruptPending
  rw [hend.masterPending]

end

end Pic8259Pair

def Pic.LevelsLatched (p : Pic) : Prop :=
  p.levelTriggered = true → ∀ i : Fin 8, hasBit p.asserted i = true → p.Forwarded i

namespace Pic.LevelsLatched

variable {p : Pic} (h : p.LevelsLatched)
include h

theorem request (j : Fin 8) : (p.request j).LevelsLatched := by
  intro hlevel i hheld
  rcases h hlevel i hheld with hirr | hisr
  · left
    rw [Pic.request, hasBit_setBit j.isLt i.isLt, hirr]
    rfl
  · exact Or.inr hisr

theorem setInputLevel (j : Fin 8) (asserted : Bool) : (p.setInputLevel j asserted).LevelsLatched := by
  intro hlevel i hheld
  have htrigger : p.levelTriggered = true := by
    cases asserted <;> exact hlevel
  by_cases hi : i = j
  · subst hi
    rw [setInputLevel_asserted] at hheld
    rw [hheld]
    exact p.setInputLevel_forwarded.mpr (Or.inl htrigger)
  · obtain ⟨hirr, hasserted⟩ := p.setInputLevel_other asserted hi
    unfold Forwarded
    rw [hirr, setInputLevel_isr]
    exact h htrigger i (hasserted.symm.trans hheld)

theorem setInService (j : Fin 8) : (p.setInService j).LevelsLatched := by
  intro hlevel i hheld
  rw [(setInService_same _).2.1] at hlevel
  rw [(setInService_same _).1] at hheld
  by_cases hi : i = j
  · subst hi
    exact p.setInService_forwarded.mpr (Or.inr ⟨hlevel, hheld⟩)
  · exact (p.setInService_other hi).mpr (h hlevel i hheld)

theorem endOfInterrupt (ocw2 : BitVec 8) : (p.endOfInterrupt ocw2).LevelsLatched := by
  intro hlevel i hheld
  have htrigger : p.levelTriggered = true := by
    rw [← hlevel]
    unfold Pic.endOfInterrupt
    dsimp only
    split
    all_goals first
      | rfl
      | cases p.highestInService <;> rfl
  rw [(p.endOfInterrupt_spec ocw2).2.2] at hheld
  rw [endOfInterrupt_forwarded]
  by_cases hretired : p.retired ocw2 = some i
  · exact Or.inr ⟨hretired, Or.inr ⟨htrigger, hheld⟩⟩
  · exact Or.inl ⟨h htrigger i hheld, hretired⟩

theorem writePort (port : ℕ) (value : BitVec 8) : (p.writePort port value).LevelsLatched := by
  unfold Pic.writePort Pic.writeCommand
  split_ifs
  · intro hlevel i hheld
    left
    have htrigger : hasBit value 3 = true := hlevel
    simp only [writeIcw1, htrigger, if_true]
    exact hheld
  · unfold Pic.writeOcw3
    cases hasBit value 1 <;> cases hasBit value 2 <;> cases hasBit value 6 <;> exact h
  · exact h.endOfInterrupt value
  · unfold Pic.writeData
    cases p.init <;> exact h

theorem readPort (port : ℕ) (exempt : Option (Fin 8)) :
    (p.readPort port exempt).2.LevelsLatched := by
  have hquiet : Pic.LevelsLatched { p with pollPending := false } := h
  rw [readPort_snd]
  split_ifs
  · unfold Pic.poll
    split
    · exact hquiet.setInService _
    · exact hquiet
  · exact h

end Pic.LevelsLatched

namespace Pic8259Pair

variable {s : Pic8259Pair}

theorem levelsLatched_step (h : s.master.LevelsLatched) (e : Event) :
    (s.step e).master.LevelsLatched := by
  cases e with
  | request irq =>
    simp only [step, request]
    split_ifs
    · exact h.request _
    · exact h.request _
    · exact h
  | setIrqLevel irq asserted =>
    simp only [step, setIrqLevel]
    split_ifs
    · exact h.setInputLevel _ _
    · exact h.setInputLevel _ _
    · exact h
  | writePort port value =>
    simp only [step, writePort]
    split_ifs
    · exact h.writePort port value
    · unfold writeSlave
      dsimp only
      split_ifs
      · exact (h.setInputLevel _ _).setInputLevel _ _
      · exact h.setInputLevel _ _
    · exact h
  | readPort port =>
    simp only [step, readPort]
    split_ifs
    · exact h.readPort port _
    · exact h.setInputLevel _ _
    · exact h
  | acknowledge =>
    simp only [step, acknowledgeWithIrq]
    split
    · exact h
    · split_ifs
      · exact h.setInService _
      · exact (h.setInService _).setInputLevel _ _

theorem levelsLatched_run (events : List Event) :
    (exec step events initial).master.LevelsLatched :=
  List.foldlRecOn (motive := fun s : Pic8259Pair => s.master.LevelsLatched) events step nofun
    fun _ h e _ => levelsLatched_step h e

theorem setIrqLevel_slave (line : Fin 8) (asserted : Bool) : s.setIrqLevel (8 + line) asserted =
    syncCascade { s with slave := s.slave.setInputLevel line asserted } := by
  have hslave : 8 + line.val - 8 < 8 := by omega
  have hline : (⟨8 + line.val - 8, hslave⟩ : Fin 8) = line := Fin.ext (by simp)
  unfold setIrqLevel
  rw [dif_neg (by omega), dif_pos hslave, hline]

theorem request_slave (line : Fin 8) : s.request (8 + line) =
    ⟨s.master.request s.cascadePin, s.slave.request line⟩ := by
  have hslave : 8 + line.val - 8 < 8 := by omega
  have hline : (⟨8 + line.val - 8, hslave⟩ : Fin 8) = line := Fin.ext (by simp)
  unfold request
  rw [dif_neg (by omega), dif_pos hslave, hline]

/-- The level of a masked line drives nothing but the slave's own latch. -/
theorem setIrqLevel_silent {line : Fin 8} (hmasked : s.Masked line) (asserted : Bool) :
    Silent line (s.setIrqLevel (8 + line) asserted) s.syncCascade := by
  have hagree : s.slave.AgreeOff line (s.slave.setInputLevel line asserted) := by
    have heq : s.slave.setInputLevel line asserted =
        s.slave.withInputs (s.slave.setInputLevel line asserted).irr
          (s.slave.setInputLevel line asserted).asserted := by
      cases asserted <;> rfl
    rw [heq]
    exact .intro (fun j hj => (s.slave.setInputLevel_other asserted hj).1)
      (fun j hj => (s.slave.setInputLevel_other asserted hj).2)
  have hunseen : Unseen line s { s with slave := s.slave.setInputLevel line asserted } :=
    ⟨hagree, Or.inl rfl⟩
  rw [setIrqLevel_slave]
  exact (hunseen.syncCascade hmasked).silent

def PulseAbsorbed (s : Pic8259Pair) : Prop :=
  hasBit s.master.irr s.cascadePin = true ∨
    s.master.levelTriggered = true ∧ hasBit s.master.asserted s.cascadePin = true ∧
      s.master.mayNest s.cascadePin = false

instance : Decidable s.PulseAbsorbed := by
  unfold PulseAbsorbed
  infer_instance

theorem request_silent {line : Fin 8} (hlatched : s.master.LevelsLatched)
    (h : s.PulseAbsorbed) : Silent line (s.request (8 + line)) s := by
  have hslave : s.slave.AgreeOff line (s.slave.request line) :=
    .intro (BitsOff.setBit_self s.slave.irr line) (BitsOff.refl _ line)
  have hmaster : s.master.AgreeOff s.cascadePin (s.master.request s.cascadePin) :=
    .intro (BitsOff.setBit_self s.master.irr s.cascadePin) (BitsOff.refl _ _)
  have hset : hasBit (s.master.request s.cascadePin).irr s.cascadePin = true := by
    rw [Pic.request, hasBit_setBit s.cascadePin.isLt s.cascadePin.isLt]
    simp
  rw [request_slave]
  refine Unseen.silent ⟨hslave, ?_⟩
  by_cases hirr : hasBit s.master.irr s.cascadePin = true
  · exact Or.inl (hmaster.eq rfl (hset.trans hirr.symm))
  · obtain ⟨hlevel, hheld, hnest⟩ := h.resolve_left hirr
    have hservice := (hlatched hlevel s.cascadePin hheld).resolve_left hirr
    exact Or.inr ⟨hmaster, rfl, hlevel, hheld, hservice, hnest⟩

end Pic8259Pair

namespace Pic

variable (p : Pic) (i : Fin 8)

def isolate : Pic :=
  let nest := setBit 0x10#8 i
  (((p.writeData nest).writeData nest).writeData nest).writeData (clearBit 0xFF#8 i)

def retire (levels : List (Fin 8)) : Pic := levels.foldl clearInService p

structure Isolated (p' : Pic) : Prop where
  imr : p'.imr = clearBit 0xFF#8 i
  irr : p'.irr = p.irr
  isr : p'.isr = p.isr
  asserted : p'.asserted = p.asserted
  levelTriggered : p'.levelTriggered = p.levelTriggered
  nests : p.mayNest i = true → (p'.sfnm && hasBit p'.icw3 i) = true

theorem isolate_spec : p.Isolated i (p.isolate i) := by
  have hnest : hasBit (setBit 0x10#8 i) i = true ∧ hasBit (setBit 0x10#8 i) 4 = true := by
    revert i
    decide
  unfold isolate
  generalize setBit 0x10#8 i = nest at hnest
  obtain ⟨hi, h4⟩ := hnest
  rcases hinit : p.init with _ | _ | _ | _
  · constructor <;> simp [writeData, mayNest, hinit]
  · cases hsingle : p.single <;> cases hicw4 : p.expectIcw4 <;>
      constructor <;> simp [writeData, mayNest, hinit, hsingle, hicw4, hi, h4]
    exact fun hicw3 hsfnm => ⟨hsfnm, hicw3⟩
  · cases hicw4 : p.expectIcw4 <;>
      constructor <;> simp [writeData, mayNest, hinit, hicw4, hi, h4]
  · constructor <;> simp [writeData, mayNest, hinit, h4]

structure Retired (levels : List (Fin 8)) (p' : Pic) : Prop where
  imr : p'.imr = p.imr
  sfnm : p'.sfnm = p.sfnm
  icw3 : p'.icw3 = p.icw3
  isr : ∀ j : Fin 8, hasBit p'.isr j = true ↔ hasBit p.isr j = true ∧ j ∉ levels
  irr : (i ∈ levels → (p.levelTriggered && hasBit p.asserted i) = false) →
    hasBit p'.irr i = hasBit p.irr i

theorem retire_spec (levels : List (Fin 8)) : p.Retired i levels (p.retire levels) := by
  induction levels generalizing p with
  | nil => exact ⟨rfl, rfl, rfl, by simp [retire], fun _ => rfl⟩
  | cons level rest ih =>
    obtain ⟨himr, hsfnm, hicw3, hisr, hirr⟩ := ih (p.clearInService level)
    refine ⟨himr, hsfnm, hicw3, fun j => ?_, fun hquiet => ?_⟩
    · rw [show p.retire (level :: rest) = (p.clearInService level).retire rest from rfl, hisr]
      simp only [clearInService, hasBit_clearBit level.isLt j.isLt, Bool.and_eq_true,
        decide_eq_true_eq, List.mem_cons, not_or, Fin.val_inj, ne_eq]
      tauto
    · have hrest := hirr fun hmem => hquiet (List.mem_cons_of_mem level hmem)
      rw [show p.retire (level :: rest) = (p.clearInService level).retire rest from rfl, hrest]
      by_cases hlevel : i = level
      · subst hlevel
        simp [clearInService, hquiet List.mem_cons_self]
      · have hne := ne_val hlevel
        simp only [clearInService]
        split_ifs
        · simp [hasBit_setBit level.isLt i.isLt, hne]
        · rfl

/-- With the other lines masked and out of service, the resolution is about line `i` alone. -/
theorem resolve_isolated {exempt : Option (Fin 8)} (himr : p.imr = clearBit 0xFF#8 i)
    (hisr : ∀ j ≠ i, hasBit p.isr j = false) (hi : hasBit p.isr i = false ∨ exempt = some i)
    (levels : List (Fin 8)) :
    p.resolve exempt levels = if i ∈ levels ∧ hasBit p.irr i = true then some i else none := by
  have hmask (j : Fin 8) : hasBit p.imr j = !decide (j = i) := by
    have hall : hasBit 0xFF#8 j = true := by
      revert j
      decide
    rw [himr, hasBit_clearBit i.isLt j.isLt, hall]
    simp [Fin.val_inj]
  induction levels with
  | nil => simp [resolve]
  | cons level rest ih =>
    rw [resolve, ih, hasBit_andNot level.isLt, hmask]
    by_cases hlevel : level = i
    · subst hlevel
      have hfree : (hasBit p.isr level && decide (exempt ≠ some level)) = false := by
        rcases hi with hfree | hexempt
        · rw [hfree, Bool.false_and]
        · simp [hexempt]
      rw [hfree]
      cases hasBit p.irr level <;> simp
    · rw [hisr level hlevel]
      simp [hlevel, Ne.symm hlevel]

theorem mem_priorityOrder : i ∈ p.priorityOrder := by
  unfold priorityOrder
  generalize p.lowest = lowest
  revert i lowest
  decide

end Pic

namespace Pic8259Pair

variable (s : Pic8259Pair)

def specificEoi (level : Fin 8) : BitVec 8 := 0x60#8 ||| BitVec.ofNat 8 level

def probe (pin : Fin 8) (levels : List (Fin 8)) : List Event :=
  let nest := setBit 0x10#8 pin
  [.writePort 0x21 nest, .writePort 0x21 nest, .writePort 0x21 nest,
    .writePort 0x21 (clearBit 0xFF#8 pin)] ++
    levels.map fun level => .writePort 0x20 (specificEoi level)

theorem specificEoi_bits (level : Fin 8) : hasBit (specificEoi level) 4 = false ∧
    hasBit (specificEoi level) 3 = false ∧ (specificEoi level).toNat / 32 = 3 ∧
    levelOf (specificEoi level) = level := by
  revert level
  decide

theorem exec_retire (levels : List (Fin 8)) :
    exec step (levels.map fun level => .writePort 0x20 (specificEoi level)) s =
      { s with master := s.master.retire levels } := by
  induction levels generalizing s with
  | nil => rfl
  | cons level rest ih =>
    have heoi : s.step (.writePort 0x20 (specificEoi level)) =
        { s with master := s.master.clearInService level } := by
      obtain ⟨h4, h3, hcommand, hlevel⟩ := specificEoi_bits level
      have hwrite : s.master.writePort 0x20 (specificEoi level) =
          s.master.clearInService level := by
        simp [Pic.writePort, Pic.writeCommand, Pic.endOfInterrupt, h4, h3, hcommand, hlevel]
      rw [← hwrite]
      rfl
    rw [List.map_cons, exec_cons, heoi, ih]
    rfl

theorem exec_probe (pin : Fin 8) (levels : List (Fin 8)) :
    exec step (probe pin levels) s = { s with master := (s.master.isolate pin).retire levels } := by
  unfold probe
  rw [exec_append, exec_retire]
  rfl

/-- What the master delivers after the probe is the request on the pin, if it is latched. -/
theorem probe_pending {pin : Fin 8} {levels : List (Fin 8)} (hpin : s.cascadePin = pin)
    (hlevels : ∀ j ≠ pin, j ∈ levels) (hnest : pin ∈ levels ∨ s.master.mayNest pin = true)
    (hquiet : pin ∈ levels → (s.master.levelTriggered && hasBit s.master.asserted pin) = false) :
    (exec step (probe pin levels) s).interruptPending = hasBit s.master.irr pin := by
  have hisolated := s.master.isolate_spec pin
  have hretired := (s.master.isolate pin).retire_spec pin levels
  have hirr : hasBit ((s.master.isolate pin).retire levels).irr pin = hasBit s.master.irr pin := by
    rw [hretired.irr, hisolated.irr]
    intro hmem
    rw [hisolated.levelTriggered, hisolated.asserted]
    exact hquiet hmem
  have hothers : ∀ j ≠ pin, hasBit ((s.master.isolate pin).retire levels).isr j = false := by
    intro j hj
    rw [Bool.eq_false_iff]
    exact fun hbusy => ((hretired.isr j).mp hbusy).2 (hlevels j hj)
  have hfree : hasBit ((s.master.isolate pin).retire levels).isr pin = false ∨
      masterCascadeExempt { s with master := (s.master.isolate pin).retire levels } = some pin := by
    rcases hnest with hmem | hmay
    · left
      rw [Bool.eq_false_iff]
      exact fun hbusy => ((hretired.isr pin).mp hbusy).2 hmem
    · right
      have hnests := hisolated.nests hmay
      have hsame : cascadePin { s with master := (s.master.isolate pin).retire levels } = pin := hpin
      unfold masterCascadeExempt
      rw [hsame]
      simp only [hretired.sfnm, hretired.icw3]
      rw [if_pos hnests]
  rw [exec_probe]
  unfold interruptPending masterPending Pic.highestPending
  rw [Pic.resolve_isolated _ pin (hretired.imr.trans hisolated.imr) hothers hfree, hirr]
  have hmem := ((s.master.isolate pin).retire levels).mem_priorityOrder pin
  cases hasBit s.master.irr pin <;> simp [hmem]

/-- The probe touches the master alone. -/
theorem probe_masked {line : Fin 8} (hmasked : s.Masked line) (pin : Fin 8)
    (levels : List (Fin 8)) : Throughout step (Masked · line) (probe pin levels) s := by
  refine Throughout.of_keeps _ (fun e he s hnow => ?_) hmasked
  simp only [probe, List.mem_append, List.mem_cons, List.not_mem_nil, or_false, List.mem_map] at he
  rcases he with (rfl | rfl | rfl | rfl) | ⟨level, -, rfl⟩
  all_goals exact hnow

/-- A pulse that is not absorbed is heard once nothing else holds the cascade pin back. -/
theorem absorbed_of_silent {line : Fin 8} (hmasked : s.Masked line)
    (h : Silent line (s.request (8 + line)) s) : s.PulseAbsorbed := by
  by_contra hheard
  obtain ⟨hirr, hheld⟩ := not_or.mp hheard
  have hclear : hasBit s.master.irr s.cascadePin = false := Bool.eq_false_iff.mpr hirr
  have hset : hasBit (s.request (8 + line)).master.irr s.cascadePin = true := by
    rw [request_slave, Pic.request, hasBit_setBit s.cascadePin.isLt s.cascadePin.isLt]
    simp
  have hpin : (s.request (8 + line)).cascadePin = s.cascadePin := by
    rw [request_slave]
    rfl
  have hstill : (s.request (8 + line)).Masked line := by
    rw [request_slave]
    exact hmasked
  have hmaster : (s.request (8 + line)).master = s.master.request s.cascadePin := by
    rw [request_slave]
  have htold (levels : List (Fin 8)) (hlevels : ∀ j ≠ s.cascadePin, j ∈ levels)
      (hnest : s.cascadePin ∈ levels ∨ s.master.mayNest s.cascadePin = true)
      (hquiet : s.cascadePin ∈ levels →
        (s.master.levelTriggered && hasBit s.master.asserted s.cascadePin) = false) : False := by
    have hsame := (h _ (probe_masked _ hstill s.cascadePin levels)).1
    rw [probe_pending _ hpin hlevels (by rw [hmaster]; exact hnest) (by rw [hmaster]; exact hquiet),
      probe_pending s rfl hlevels hnest hquiet, hset, hclear] at hsame
    cases hsame
  by_cases hlevel : (s.master.levelTriggered && hasBit s.master.asserted s.cascadePin) = true
  · -- the pin nests, so that its own service need not end
    obtain ⟨htrigger, hup⟩ := Bool.and_eq_true_iff.mp hlevel
    have hmay : s.master.mayNest s.cascadePin = true := by
      by_contra hno
      exact hheld ⟨htrigger, hup, Bool.eq_false_iff.mpr hno⟩
    refine htold ((List.finRange 8).filter (· ≠ s.cascadePin)) ?_ (Or.inr hmay) ?_
    · exact fun j hj => List.mem_filter.mpr ⟨List.mem_finRange j, decide_eq_true hj⟩
    · intro hmem
      exact absurd rfl (of_decide_eq_true (List.mem_filter.mp hmem).2)
  · exact htold (List.finRange 8) (fun j _ => List.mem_finRange j) (Or.inl (List.mem_finRange _))
      fun _ => Bool.eq_false_iff.mpr hlevel

end Pic8259Pair

open Pic8259Pair

/-- In every reachable state, requests on a masked line of the slave are silent for as long as it
stays masked exactly if the pulse among them is absorbed on the master. -/
theorem masked_silent_iff (events : List Event) (line : Fin 8)
    (hmasked : (exec step events initial).Masked line) :
    (Silent line ((exec step events initial).request (8 + line)) (exec step events initial) ∧
      ∀ asserted, Silent line ((exec step events initial).setIrqLevel (8 + line) asserted)
        (exec step events initial).syncCascade) ↔
      (exec step events initial).PulseAbsorbed := by
  constructor
  · exact fun h => absorbed_of_silent _ hmasked h.1
  · intro h
    exact ⟨request_silent (levelsLatched_run events) h, setIrqLevel_silent hmasked⟩

def maskedBehindRequest : List Event :=
  atInit 0x01 ++ [.writePort 0xA1 0x01, .request 9]

theorem maskedBehindRequest_silent :
    Silent 0 ((exec step maskedBehindRequest initial).request 8)
      (exec step maskedBehindRequest initial) :=
  ((masked_silent_iff maskedBehindRequest 0 (by decide)).mpr (by decide)).1

def lineEightMasked : Pic8259Pair := exec step (atInit 0x01 ++ [.writePort 0xA1 0x01]) initial

/-- A pulse on the masked line makes the pair assert INT, and the CPU gets the spurious vector. -/
theorem lineEightMasked_spurious :
    lineEightMasked.Masked 0 ∧ lineEightMasked.interruptPending = false ∧
      (lineEightMasked.request 8).interruptPending = true ∧
      (lineEightMasked.request 8).acknowledgeWithIrq.1 = some (0x77#8, 2) ∧
      ¬ Silent 0 (lineEightMasked.request 8) lineEightMasked := by
  refine ⟨by decide, by decide, by decide, by decide, fun h => ?_⟩
  have hmasked : (lineEightMasked.request 8).Masked 0 := by decide
  have hsame := (h [] hmasked).1
  revert hsame
  decide

end IzarraVM.Interrupts
