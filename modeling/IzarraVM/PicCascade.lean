import IzarraVM.Pic
import IzarraVM.StepRuns

/-! The cascade of the pair: when a request of the slave stays known to the master. -/
namespace IzarraVM.Interrupts

def Pic.Forwarded (p : Pic) (i : Fin 8) : Prop := hasBit p.irr i = true ∨ hasBit p.isr i = true

namespace Pic

variable (p : Pic) {i j : Fin 8}

theorem ne_val (h : j ≠ i) : (j : ℕ) ≠ i := fun heq => h (Fin.ext heq)

theorem setInputLevel_isr (asserted : Bool) : (p.setInputLevel i asserted).isr = p.isr := by
  unfold setInputLevel
  split_ifs <;> rfl

theorem setInputLevel_asserted (asserted : Bool) :
    hasBit (p.setInputLevel i asserted).asserted i = asserted := by
  cases asserted with
  | true => simp [setInputLevel, hasBit_setBit i.isLt i.isLt]
  | false => simp [setInputLevel, hasBit_clearBit i.isLt i.isLt]

/-- A line tells nothing about the others. -/
theorem setInputLevel_other (asserted : Bool) (h : j ≠ i) :
    hasBit (p.setInputLevel i asserted).irr j = hasBit p.irr j ∧
      hasBit (p.setInputLevel i asserted).asserted j = hasBit p.asserted j := by
  have hne := ne_val h
  unfold setInputLevel
  split_ifs <;> simp [hasBit_setBit i.isLt j.isLt, hasBit_clearBit i.isLt j.isLt, hne]

/-- A line that rises is latched by a level, or by the edge if it was low. -/
theorem setInputLevel_forwarded :
    (p.setInputLevel i true).Forwarded i ↔
      p.levelTriggered = true ∨ hasBit p.asserted i = false ∨ p.Forwarded i := by
  have hisr := p.setInputLevel_isr (i := i) true
  unfold Forwarded
  rw [hisr]
  unfold setInputLevel
  simp only [if_true, Bool.or_eq_true, Bool.not_eq_true']
  split_ifs with h
  · simp [hasBit_setBit i.isLt i.isLt, or_assoc.symm, h]
  · simp [not_or.mp h]

theorem clearInService_other (h : j ≠ i) : (p.clearInService i).Forwarded j ↔ p.Forwarded j := by
  have hne := ne_val h
  unfold Forwarded clearInService
  simp only [hasBit_clearBit i.isLt j.isLt]
  split_ifs <;> simp [hasBit_setBit i.isLt j.isLt, hne]

theorem clearInService_forwarded : (p.clearInService i).Forwarded i ↔
    hasBit p.irr i = true ∨ p.levelTriggered = true ∧ hasBit p.asserted i = true := by
  unfold Forwarded clearInService
  simp only [hasBit_clearBit i.isLt i.isLt, Bool.and_eq_true]
  split_ifs with h
  · simp [hasBit_setBit i.isLt i.isLt, h]
  · simp [h]

/-- What is not of one level stays when a level is taken into service. -/
theorem setInService_same : (p.setInService i).asserted = p.asserted ∧
    (p.setInService i).levelTriggered = p.levelTriggered ∧
    (p.setInService i).icw3 = p.icw3 ∧ (p.setInService i).imr = p.imr := by
  unfold setInService
  dsimp only
  split_ifs <;> exact ⟨rfl, rfl, rfl, rfl⟩

theorem readPort_same (port : ℕ) (exempt : Option (Fin 8)) :
    (p.readPort port exempt).2.icw3 = p.icw3 ∧ (p.readPort port exempt).2.imr = p.imr := by
  unfold readPort poll
  split_ifs
  · split
    · exact (setInService_same _).2.2
    · exact ⟨rfl, rfl⟩
  all_goals exact ⟨rfl, rfl⟩

theorem setInService_other (h : j ≠ i) : (p.setInService i).Forwarded j ↔ p.Forwarded j := by
  have hne := ne_val h
  have hset : Forwarded { p with isr := setBit p.isr i, irr := clearBit p.irr i } j ↔ p.Forwarded j := by
    simp [Forwarded, hasBit_setBit i.isLt j.isLt, hasBit_clearBit i.isLt j.isLt, hne]
  unfold setInService
  dsimp only
  split_ifs
  · exact (clearInService_other _ h).trans hset
  · exact (clearInService_other _ h).trans hset
  · exact hset

/-- Taking a level into service keeps it known, unless it is retired at once. -/
theorem setInService_forwarded : (p.setInService i).Forwarded i ↔
    p.autoEoi = false ∨ p.levelTriggered = true ∧ hasBit p.asserted i = true := by
  have hcleared : (clearInService { p with isr := setBit p.isr i, irr := clearBit p.irr i }
      i).Forwarded i ↔ p.levelTriggered = true ∧ hasBit p.asserted i = true := by
    rw [clearInService_forwarded]
    simp [hasBit_clearBit i.isLt i.isLt]
  have hretired (hauto : p.autoEoi = true) : (p.levelTriggered = true ∧ hasBit p.asserted i = true) ↔
      p.autoEoi = false ∨ p.levelTriggered = true ∧ hasBit p.asserted i = true := by simp [hauto]
  unfold setInService
  dsimp only
  split_ifs with hauto hrotate
  · exact hcleared.trans (hretired hauto)
  · exact hcleared.trans (hretired hauto)
  · simp [Forwarded, hasBit_setBit i.isLt i.isLt, hauto]

variable (ocw2 : BitVec 8)

def retired : Option (Fin 8) :=
  if ocw2.toNat/32 = 1 ∨ ocw2.toNat/32 = 5 then p.highestInService
  else if ocw2.toNat/32 = 3 ∨ ocw2.toNat/32 = 7 then some (levelOf ocw2)
  else none

def afterRetired : Pic := (p.retired ocw2).elim p p.clearInService

/-- An OCW2 ends the service of one level or none, and leaves the inputs alone. -/
theorem endOfInterrupt_spec :
    (p.endOfInterrupt ocw2).irr = (p.afterRetired ocw2).irr ∧
      (p.endOfInterrupt ocw2).isr = (p.afterRetired ocw2).isr ∧
      (p.endOfInterrupt ocw2).asserted = p.asserted := by
  have hrange : ocw2.toNat/32 < 8 := by
    have := ocw2.isLt
    omega
  unfold endOfInterrupt afterRetired retired
  generalize ocw2.toNat/32 = command at hrange
  cases p.highestInService <;> interval_cases command <;> exact ⟨rfl, rfl, rfl⟩

theorem endOfInterrupt_forwarded :
    (p.endOfInterrupt ocw2).Forwarded i ↔ p.Forwarded i ∧ p.retired ocw2 ≠ some i ∨
      p.retired ocw2 = some i ∧
        (hasBit p.irr i = true ∨ p.levelTriggered = true ∧ hasBit p.asserted i = true) := by
  obtain ⟨hirr, hisr, -⟩ := p.endOfInterrupt_spec ocw2
  have hafter : (p.endOfInterrupt ocw2).Forwarded i ↔ (p.afterRetired ocw2).Forwarded i := by
    unfold Forwarded
    rw [hirr, hisr]
  rw [hafter, afterRetired]
  cases hlevel : p.retired ocw2 with
  | none => simp
  | some level =>
    by_cases h : i = level
    · subst h
      simpa using p.clearInService_forwarded
    · have hne : level ≠ i := Ne.symm h
      simpa [hne] using p.clearInService_other h

/-- The poll flag has no part in the resolution. -/
theorem highestPending_pollPending (pollPending : Bool) (exempt : Option (Fin 8)) :
    highestPending { p with pollPending } exempt = p.highestPending exempt := by
  have hresolve (levels : List (Fin 8)) :
      resolve { p with pollPending } exempt levels = p.resolve exempt levels := by
    induction levels with
    | nil => rfl
    | cons level rest ih => simp only [resolve, ih]
  exact hresolve _

/-- More requests do not take a deliverable one away. -/
theorem resolve_isSome_of_request (levels : List (Fin 8))
    (h : (p.resolve none levels).isSome = true) :
    ((p.request i).resolve none levels).isSome = true := by
  induction levels with
  | nil => cases h
  | cons level rest ih =>
    have hmore (hreq : hasBit (p.irr &&& ~~~p.imr) level = true) :
        hasBit (setBit p.irr i &&& ~~~p.imr) level = true := by
      rw [hasBit_andNot level.isLt, Bool.and_eq_true] at hreq ⊢
      rw [hasBit_setBit i.isLt level.isLt, hreq.1]
      exact ⟨rfl, hreq.2⟩
    have hisr : (p.request i).isr = p.isr := rfl
    have hmask : (p.request i).specialMask = p.specialMask := rfl
    have hreq : (p.request i).irr &&& ~~~(p.request i).imr = setBit p.irr i &&& ~~~p.imr := rfl
    cases hbusy : hasBit p.isr level with
    | true =>
      cases hspecial : p.specialMask with
      | true =>
        simp only [resolve, hisr, hmask, hbusy, hspecial, Bool.true_and, ne_eq, reduceCtorEq,
          not_false_eq_true, decide_true, if_true] at h ⊢
        exact ih h
      | false => simp [resolve, hbusy, hspecial] at h
    | false =>
      simp only [resolve, hisr, hreq, hbusy, Bool.false_and, Bool.false_eq_true, if_false] at h ⊢
      by_cases hlevel : hasBit (p.irr &&& ~~~p.imr) level = true
      · rw [if_pos (hmore hlevel)]
        rfl
      · rw [if_neg hlevel] at h
        split_ifs
        · rfl
        · exact ih h

end Pic

namespace Pic8259Pair

variable (s : Pic8259Pair)

def Eligible : Prop := (s.slave.highestPending none).isSome = true

def NoneLost : Prop := s.Eligible → s.master.Forwarded s.cascadePin

def Held : Prop := hasBit s.master.asserted s.cascadePin = true

def Synced : Prop := s.Held → s.Eligible

def Relatches : Prop := s.master.levelTriggered = true ∧ s.Held

def Wired : Event → Prop
  | .setIrqLevel irq _ => irq ≠ s.cascadePin
  | .writePort port value => port = 0xA1 → s.slave.init = .expectIcw3 →
      levelOf value ≠ s.cascadePin → hasBit s.master.asserted (levelOf value) = false
  | _ => True

def Relatched : Event → Prop
  | .writePort port value => port = 0x20 → s.Eligible →
      if hasBit value 4 then hasBit value 3 = true ∧ s.Held
      else if hasBit value 3 then True
      else s.master.retired value = some s.cascadePin →
        hasBit s.master.irr s.cascadePin = true ∨ s.Relatches
  | .readPort port => port = 0x20 ∨ port = 0x21 → s.master.pollPending = true →
      s.masterPending = some s.cascadePin → s.master.autoEoi = true → s.Eligible → s.Relatches
  | .acknowledge => s.masterPending = some s.cascadePin → s.master.autoEoi = true →
      if hasBit s.master.icw3 s.cascadePin then
        (s.slaveServed.highestPending none).isSome = true →
          s.master.levelTriggered = true ∨ ¬ s.Held
      else s.Eligible → s.Relatches
  | _ => True

instance (e : Event) : Decidable (s.Wired e) := by
  cases e <;> unfold Wired <;> infer_instance

instance (p : Pic) (i : Fin 8) : Decidable (p.Forwarded i) :=
  inferInstanceAs (Decidable (hasBit p.irr i = true ∨ hasBit p.isr i = true))

instance : Decidable s.NoneLost :=
  inferInstanceAs (Decidable ((s.slave.highestPending none).isSome = true →
    s.master.Forwarded s.cascadePin))

/-- After the cascade pin is driven anew. -/
theorem syncCascade_synced : s.syncCascade.Synced := by
  intro h
  have hpin : s.syncCascade.cascadePin = s.cascadePin := rfl
  unfold Held at h
  rw [hpin] at h
  exact (s.master.setInputLevel_asserted _).symm.trans h

theorem syncCascade_noneLost : s.syncCascade.NoneLost ↔
    (s.Eligible → s.master.levelTriggered = true ∨ ¬ s.Held ∨ s.master.Forwarded s.cascadePin) := by
  have heligible : s.syncCascade.Eligible ↔ s.Eligible := Iff.rfl
  unfold NoneLost
  rw [heligible]
  refine imp_congr_right fun h => ?_
  have hup : (s.slave.highestPending none).isSome = true := h
  have hmaster : s.syncCascade.master = s.master.setInputLevel s.cascadePin true := by
    rw [syncCascade, hup]
  rw [hmaster, show s.syncCascade.cascadePin = s.cascadePin from rfl, Pic.setInputLevel_forwarded,
    Held, Bool.not_eq_true]

variable {s}

/-- Driving the pin after the slave has changed loses nothing that was not lost before. -/
theorem syncCascade_of_slave (hsynced : s.Synced) (hlost : s.NoneLost) {slave : Pic}
    (hsame : cascadePin { s with slave } = s.cascadePin) :
    (syncCascade { s with slave }).Synced ∧ (syncCascade { s with slave }).NoneLost := by
  refine ⟨syncCascade_synced _, (syncCascade_noneLost _).mpr fun _ => Or.inr ?_⟩
  by_cases hheld : s.Held
  · right
    rw [hsame]
    exact hlost (hsynced hheld)
  · left
    unfold Held at hheld ⊢
    rw [hsame]
    exact hheld

/-- The master changes and the slave does not. -/
theorem of_master {master : Pic} (hsynced : s.Synced)
    (hasserted : hasBit master.asserted s.cascadePin = hasBit s.master.asserted s.cascadePin) :
    Synced { s with master } := fun h => hsynced (hasserted.symm.trans h)

theorem noneLost_master {master : Pic} {C : Prop} (hlost : s.NoneLost)
    (h : s.Eligible → s.master.Forwarded s.cascadePin → (master.Forwarded s.cascadePin ↔ C)) :
    NoneLost { s with master } ↔ (s.Eligible → C) :=
  forall_congr' fun heligible => h heligible (hlost heligible)

/-- A master that keeps the level as it was loses nothing. -/
theorem noneLost_of_same {master : Pic} (hlost : s.NoneLost)
    (h : s.master.Forwarded s.cascadePin → master.Forwarded s.cascadePin) :
    NoneLost { s with master } := fun heligible => h (hlost heligible)

section Steps

variable (hsynced : s.Synced) (hlost : s.NoneLost)
include hsynced hlost

theorem request_keeps (irq : ℕ) : (s.request irq).Synced ∧ (s.request irq).NoneLost := by
  unfold request
  split_ifs with h h'
  · refine ⟨of_master hsynced rfl, noneLost_of_same hlost fun hforwarded => ?_⟩
    rcases hforwarded with hirr | hisr
    · left
      rw [Pic.request, hasBit_setBit h s.cascadePin.isLt, hirr]
      rfl
    · exact Or.inr hisr
  · constructor
    · intro hheld
      exact s.slave.resolve_isSome_of_request _ (hsynced hheld)
    · intro _
      left
      change hasBit (setBit s.master.irr s.cascadePin) s.cascadePin = true
      rw [hasBit_setBit s.cascadePin.isLt s.cascadePin.isLt]
      simp
  · exact ⟨hsynced, hlost⟩

theorem setIrqLevel_keeps {irq : ℕ} {asserted : Bool} (hwired : irq ≠ s.cascadePin) :
    (s.setIrqLevel irq asserted).Synced ∧ (s.setIrqLevel irq asserted).NoneLost := by
  unfold setIrqLevel
  split_ifs with h h'
  · have hne : s.cascadePin ≠ ⟨irq, h⟩ := fun heq => hwired (congrArg Fin.val heq).symm
    obtain ⟨hirr, hasserted⟩ := s.master.setInputLevel_other asserted hne
    refine ⟨of_master hsynced hasserted, noneLost_of_same hlost fun hforwarded => ?_⟩
    unfold Pic.Forwarded
    rw [hirr, Pic.setInputLevel_isr]
    exact hforwarded
  · refine syncCascade_of_slave hsynced hlost (congrArg levelOf ?_)
    unfold Pic.setInputLevel
    split_ifs <;> rfl
  · exact ⟨hsynced, hlost⟩

theorem keeps_of_lines {master : Pic}
    (hsame : master.irr = s.master.irr ∧ master.isr = s.master.isr ∧
      master.asserted = s.master.asserted) :
    Synced { s with master } ∧ NoneLost { s with master } := by
  refine ⟨of_master hsynced (by rw [hsame.2.2]), noneLost_of_same hlost fun hforwarded => ?_⟩
  unfold Pic.Forwarded
  rw [hsame.1, hsame.2.1]
  exact hforwarded

/-- A write to the master, by what becomes of its cascade level. -/
theorem writeMaster_keeps (port : ℕ) (value : BitVec 8) (hport : port = 0x20 ∨ port = 0x21) :
    Synced { s with master := s.master.writePort port value } ∧
      (NoneLost { s with master := s.master.writePort port value } ↔
        s.Relatched (.writePort port value)) := by
  rcases hport with rfl | rfl
  · have hcommand : s.master.writePort 0x20 value = s.master.writeCommand value := rfl
    simp only [hcommand, Relatched, true_imp_iff, Pic.writeCommand]
    split_ifs with h4 h3
    · refine ⟨of_master hsynced rfl, noneLost_master hlost fun _ _ => ?_⟩
      simp only [Pic.Forwarded, Pic.writeIcw1]
      split_ifs with h3
      · simp [h3, Held]
      · simp [h3]
    · have hsame : (s.master.writeOcw3 value).irr = s.master.irr ∧
          (s.master.writeOcw3 value).isr = s.master.isr ∧
          (s.master.writeOcw3 value).asserted = s.master.asserted := by
        unfold Pic.writeOcw3
        dsimp only
        split_ifs <;> exact ⟨rfl, rfl, rfl⟩
      exact (keeps_of_lines hsynced hlost hsame).imp_right fun h => iff_of_true h fun _ => trivial
    · refine ⟨of_master hsynced ?_, noneLost_master hlost fun _ hforwarded => ?_⟩
      · rw [(s.master.endOfInterrupt_spec value).2.2]
      · rw [s.master.endOfInterrupt_forwarded value]
        by_cases hretired : s.master.retired value = some s.cascadePin
        · simp [hretired, Relatches, Held]
        · simp [hretired, hforwarded]
  · have hsame : (s.master.writePort 0x21 value).irr = s.master.irr ∧
        (s.master.writePort 0x21 value).isr = s.master.isr ∧
        (s.master.writePort 0x21 value).asserted = s.master.asserted := by
      simp only [Pic.writePort, Pic.writeData]
      cases s.master.init <;> exact ⟨rfl, rfl, rfl⟩
    exact (keeps_of_lines hsynced hlost hsame).imp_right fun h =>
      iff_of_true h (by simp [Relatched])

omit hsynced hlost in
/-- Only the third initialization word moves the slave to another pin. -/
theorem writePort_icw3 {port : ℕ} {value : BitVec 8} (p : Pic)
    (h : (p.writePort port value).icw3 ≠ p.icw3) :
    port%2 = 1 ∧ p.init = .expectIcw3 ∧ (p.writePort port value).icw3 = value := by
  unfold Pic.writePort at h ⊢
  split_ifs at h ⊢ with hport
  · refine absurd ?_ h
    unfold Pic.writeCommand Pic.writeIcw1 Pic.writeOcw3
    dsimp only
    split_ifs
    all_goals first
      | rfl
      | unfold Pic.endOfInterrupt Pic.clearInService
        dsimp only
        split
        all_goals first
          | rfl
          | split <;> rfl
  · unfold Pic.writeData at h ⊢
    cases hinit : p.init with
    | expectIcw3 => exact ⟨by omega, rfl, rfl⟩
    | _ =>
      rw [hinit] at h
      exact absurd rfl h

theorem writeSlave_keeps {port : ℕ} {value : BitVec 8} (hport : port = 0xA0 ∨ port = 0xA1)
    (hwired : s.Wired (.writePort port value)) :
    (s.writeSlave port value).Synced ∧ (s.writeSlave port value).NoneLost := by
  unfold writeSlave
  dsimp only
  split_ifs with hmoved
  · refine ⟨syncCascade_synced _, (syncCascade_noneLost _).mpr fun _ => Or.inr (Or.inl ?_)⟩
    have hicw3 : (s.slave.writePort port value).icw3 ≠ s.slave.icw3 :=
      fun heq => hmoved (congrArg levelOf heq.symm)
    obtain ⟨hodd, hinit, hvalue⟩ := writePort_icw3 s.slave hicw3
    have hpin : cascadePin { s with slave := s.slave.writePort port value } = levelOf value :=
      congrArg levelOf hvalue
    rw [hpin] at hmoved
    have hdata : port = 0xA1 := by omega
    have hlow := hwired hdata hinit (Ne.symm hmoved)
    have hother := (s.master.setInputLevel_other (i := s.cascadePin) false (Ne.symm hmoved)).2
    simp only [Held, cascadePin, hvalue, Bool.not_eq_true]
    exact hother.trans hlow
  · exact syncCascade_of_slave hsynced hlost (not_not.mp hmoved).symm

omit hsynced hlost in
theorem setInService_level_iff {level : Fin 8} (hforwarded : s.master.Forwarded s.cascadePin) :
    (s.master.setInService level).Forwarded s.cascadePin ↔
      (level = s.cascadePin → s.master.autoEoi = true → s.Relatches) := by
  by_cases hlevel : level = s.cascadePin
  · subst hlevel
    rw [Pic.setInService_forwarded]
    cases s.master.autoEoi <;> simp [Relatches, Held]
  · rw [Pic.setInService_other _ (Ne.symm hlevel)]
    exact iff_of_true hforwarded fun h => absurd h hlevel

omit hsynced in
/-- The level of the cascade after the master has taken one in service. -/
theorem noneLost_setInService (level : Fin 8) :
    NoneLost { s with master := s.master.setInService level } ↔
      (s.Eligible → level = s.cascadePin → s.master.autoEoi = true → s.Relatches) :=
  noneLost_master hlost fun _ hforwarded => setInService_level_iff hforwarded

omit hlost in
theorem synced_setInService (level : Fin 8) :
    Synced { s with master := s.master.setInService level } :=
  of_master hsynced (by rw [(Pic.setInService_same _).1])

theorem pollMaster_keeps :
    Synced { s with master := (s.master.poll s.masterCascadeExempt).2 } ∧
      (NoneLost { s with master := (s.master.poll s.masterCascadeExempt).2 } ↔
        (s.masterPending = some s.cascadePin → s.master.autoEoi = true → s.Eligible →
          s.Relatches)) := by
  unfold Pic.poll
  have hpending : s.master.highestPending s.masterCascadeExempt = s.masterPending := rfl
  rw [hpending]
  cases hlevel : s.masterPending with
  | none => exact ⟨hsynced, iff_of_true hlost (by simp)⟩
  | some level =>
    refine ⟨synced_setInService hsynced level, (noneLost_setInService hlost level).trans ?_⟩
    rw [Option.some.injEq]
    exact ⟨fun h h1 h2 h3 => h h3 h1 h2, fun h h1 h2 h3 => h h2 h3 h1⟩

theorem readPort_keeps (port : ℕ) :
    (s.readPort port).2.Synced ∧
      ((s.readPort port).2.NoneLost ↔ s.Relatched (.readPort port)) := by
  unfold readPort
  split_ifs with hmaster hslave
  · simp only [Relatched, hmaster, true_imp_iff, Pic.readPort]
    cases hpoll : s.master.pollPending with
    | false =>
      simp only [Bool.false_eq_true, if_false, false_imp_iff, iff_true]
      split_ifs <;> exact ⟨hsynced, hlost⟩
    | true =>
      let s₀ : Pic8259Pair := { s with master := { s.master with pollPending := false } }
      have hpending : s₀.masterPending = s.masterPending :=
        s.master.highestPending_pollPending false _
      obtain ⟨hs, hl⟩ := pollMaster_keeps (s := s₀) hsynced hlost
      rw [hpending] at hl
      simp only [if_true, true_imp_iff]
      exact ⟨hs, hl⟩
  · have hpin := congrArg levelOf (s.slave.readPort_same port none).1
    exact (syncCascade_of_slave hsynced hlost hpin).imp_right fun h =>
      iff_of_true h fun hport => absurd hport hmaster
  · refine ⟨hsynced, iff_of_true hlost ?_⟩
    exact fun h => absurd h hmaster

omit hsynced hlost in
theorem slaveServed_icw3 : s.slaveServed.icw3 = s.slave.icw3 := by
  unfold slaveServed
  split
  · exact (Pic.setInService_same _).2.2.1
  · rfl

omit hsynced hlost in
/-- The master takes the cascade level in service and the slave its highest request. -/
theorem cascade_noneLost :
    (syncCascade ⟨s.master.setInService s.cascadePin, s.slaveServed⟩).NoneLost ↔
      (s.master.autoEoi = true → (s.slaveServed.highestPending none).isSome = true →
        s.master.levelTriggered = true ∨ ¬ s.Held) := by
  rw [syncCascade_noneLost]
  have hpin : cascadePin ⟨s.master.setInService s.cascadePin, s.slaveServed⟩ = s.cascadePin :=
    congrArg levelOf slaveServed_icw3
  have hheld : Held ⟨s.master.setInService s.cascadePin, s.slaveServed⟩ ↔ s.Held := by
    simp only [Held, hpin, (Pic.setInService_same _).1]
  have hforwarded : (s.master.setInService s.cascadePin).Forwarded s.cascadePin ↔
      s.master.autoEoi = false ∨ s.Relatches := Pic.setInService_forwarded _
  rw [hheld, hpin, hforwarded, (Pic.setInService_same _).2.1, Relatches]
  have heligible : Eligible ⟨s.master.setInService s.cascadePin, s.slaveServed⟩ ↔
      (s.slaveServed.highestPending none).isSome = true := Iff.rfl
  rw [heligible]
  cases s.master.autoEoi <;> simp
  tauto

theorem acknowledge_keeps :
    s.acknowledgeWithIrq.2.Synced ∧
      (s.acknowledgeWithIrq.2.NoneLost ↔ s.Relatched .acknowledge) := by
  unfold acknowledgeWithIrq
  cases hlevel : s.masterPending with
  | none => exact ⟨hsynced, iff_of_true hlost (by simp [Relatched, hlevel])⟩
  | some level =>
    have hpin : cascadePin { s with master := s.master.setInService level } = s.cascadePin := rfl
    simp only [(Pic.setInService_same _).2.2.1, hpin, Relatched, hlevel, Option.some.injEq]
    by_cases hcascade : level = s.cascadePin
    · subst hcascade
      cases hwired : hasBit s.master.icw3 s.cascadePin with
      | true =>
        simp only [Bool.not_true, ne_eq, not_true_eq_false, decide_false, Bool.or_false,
          Bool.false_eq_true, if_false, if_true, true_imp_iff]
        exact ⟨syncCascade_synced _, cascade_noneLost⟩
      | false =>
        simp only [Bool.not_false, Bool.true_or, if_true, Bool.false_eq_true, if_false, true_imp_iff]
        refine ⟨synced_setInService hsynced _, (noneLost_setInService hlost _).trans ?_⟩
        exact ⟨fun h h1 h2 => h h2 rfl h1, fun h h1 _ h2 => h h2 h1⟩
    · simp only [ne_eq, hcascade, not_false_eq_true, decide_true, Bool.or_true, if_true,
        false_imp_iff, iff_true]
      exact ⟨synced_setInService hsynced _,
        (noneLost_setInService hlost _).mpr fun _ h => absurd h hcascade⟩

/-- One event keeps the output and the request in step exactly when it relatches. -/
theorem step_keeps (e : Event) (hwired : s.Wired e) :
    (s.step e).Synced ∧ ((s.step e).NoneLost ↔ s.Relatched e) := by
  cases e with
  | request irq => exact (request_keeps hsynced hlost irq).imp_right fun h => iff_of_true h trivial
  | setIrqLevel irq asserted =>
    exact (setIrqLevel_keeps hsynced hlost hwired).imp_right fun h => iff_of_true h trivial
  | readPort port => exact readPort_keeps hsynced hlost port
  | acknowledge => exact acknowledge_keeps hsynced hlost
  | writePort port value =>
    simp only [step, writePort]
    split_ifs with hmaster hslave
    · exact writeMaster_keeps hsynced hlost port value hmaster
    · refine (writeSlave_keeps hsynced hlost hslave hwired).imp_right fun h =>
        iff_of_true h fun hport => ?_
      omega
    · exact ⟨hsynced, iff_of_true hlost fun hport => absurd (Or.inl hport) hmaster⟩

end Steps

end Pic8259Pair

open Pic8259Pair Runs

/-- In a run where only the slave drives its pin, no request of the slave is ever unknown
to the master exactly when every step that retires the master's cascade request finds it
latched again or the slave with nothing left to deliver. -/
theorem noneLost_throughout_iff (events : List Event)
    (hwired : Along step Wired events initial) :
    Throughout step NoneLost events initial ↔ Along step Relatched events initial := by
  have hsynced : initial.Synced := fun h => by cases h
  have hlost : initial.NoneLost := fun h => by cases h
  refine throughout_iff (J := Synced) ?_ ?_ events hsynced hlost hwired
  · intro s e hs hl hw
    exact (step_keeps hs hl e hw).1
  · intro s e hs hl hw
    exact (step_keeps hs hl e hw).2

def atInit (icw4 : BitVec 8) : List Event :=
  [.writePort 0x20 0x11, .writePort 0x21 0x08, .writePort 0x21 0x04, .writePort 0x21 icw4,
    .writePort 0xA0 0x11, .writePort 0xA1 0x70, .writePort 0xA1 0x02, .writePort 0xA1 icw4]

def twoSlaveLines (icw4 : BitVec 8) : List Event :=
  atInit icw4 ++ [.setIrqLevel 10 true, .setIrqLevel 11 true, .acknowledge]

theorem twoSlaveLines_noneLost_iff : Along step Wired (twoSlaveLines 0x01) initial ∧
    (Throughout step NoneLost (twoSlaveLines 0x01) initial ↔
      Along step Relatched (twoSlaveLines 0x01) initial) :=
  ⟨by decide, noneLost_throughout_iff _ (by decide)⟩

/-- With automatic EOI the second line is lost: the slave's output never fell. -/
theorem twoSlaveLines_lost : Along step Wired (twoSlaveLines 0x03) initial ∧
    ¬ (exec step (twoSlaveLines 0x03) initial).NoneLost := by decide

end IzarraVM.Interrupts
