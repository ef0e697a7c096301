import IzarraVM.PicMask
import IzarraVM.StateFields
import IzarraVM.Views

/-! The canonical payload of the 8259A pair, and what of its state can still be shown. -/
namespace IzarraVM.Interrupts

open Canonical Views

def initStageTag : InitStage → UInt8
  | .ready => 0
  | .expectIcw2 => 1
  | .expectIcw3 => 2
  | .expectIcw4 => 3

namespace Pic

variable (p : Pic)

def canonicalFields (cascade : BitVec 8) (master : Bool) : List (List UInt8) :=
  let expectIcw4 := decide (p.init = .expectIcw2 ∨ p.init = .expectIcw3) && p.expectIcw4
  let single := decide (p.init = .expectIcw2) && p.single
  [writeU8 ⟨p.irr⟩, writeU8 ⟨p.asserted⟩, writeU8 ⟨p.isr⟩, writeU8 ⟨p.imr⟩, writeU8 ⟨p.icw2 &&& 0xF8#8⟩,
    writeU8 ⟨cascade⟩, writeU8 (initStageTag p.init), writeBool expectIcw4, writeBool single,
    writeBool p.levelTriggered, writeBool p.autoEoi, writeBool p.readIsr, writeBool p.pollPending,
    writeBool p.specialMask, writeBool (master && p.sfnm), writeU8 (UInt8.ofNat p.lowest),
    writeBool (p.autoEoi && p.autoRotate)]

def icw4Expected : Bool :=
  decide (p.init = .expectIcw4) || (decide (p.init = .expectIcw2 ∨ p.init = .expectIcw3) && p.expectIcw4)

def wiring (master : Bool) (icw3 : BitVec 8) : BitVec 8 := if master then icw3 else icw3 &&& 0x07#8

def view (master : Bool) (p : Pic) : Pic :=
  { p with
    icw2 := p.icw2 &&& 0xF8#8
    icw3 := wiring master p.icw3
    expectIcw4 := decide (p.init = .expectIcw2 ∨ p.init = .expectIcw3) && p.expectIcw4
    single := decide (p.init = .expectIcw2) && p.single
    buffered := false
    isMaster := false
    sfnm := master && p.sfnm
    autoRotate := (p.autoEoi || p.icw4Expected) && p.autoRotate }

end Pic

namespace Pic8259Pair

variable (s : Pic8259Pair)

def payload : List UInt8 :=
  (s.master.canonicalFields s.master.icw3 true ++
    s.slave.canonicalFields (s.slave.icw3 &&& 0x07#8) false).flatten

def irqUnmasked (irq : Fin 16) : Bool :=
  if irq.val < 8 then !hasBit s.master.imr irq else !hasBit s.slave.imr (irq.val - 8)

def deliverable (irq : Fin 16) : Bool :=
  if irq.val < 8 then s.irqUnmasked irq
  else s.irqUnmasked irq && !hasBit s.master.imr s.cascadePin

inductive Access
  | event (e : Event)
  | interruptPending
  | irqUnmasked (irq : Fin 16)
  | deliverable (irq : Fin 16)

inductive Answer
  | done
  | accepted (known : Bool)
  | byte (value : Option (BitVec 8))
  | vector (given : Option (BitVec 8 × Fin 8))
  | flag (value : Bool)
  deriving DecidableEq

def access (s : Pic8259Pair) : Access → Answer × Pic8259Pair
  | .event e =>
    (match e with
      | .request _ | .setIrqLevel _ _ => .done
      | .writePort port _ => .accepted (decide (port = 0x20 ∨ port = 0x21 ∨ port = 0xA0 ∨ port = 0xA1))
      | .readPort port => .byte (s.readPort port).1
      | .acknowledge => .vector s.acknowledgeWithIrq.1, s.step e)
  | .interruptPending => (.flag s.interruptPending, s)
  | .irqUnmasked irq => (.flag (s.irqUnmasked irq), s)
  | .deliverable irq => (.flag (s.deliverable irq), s)

def view : Pic8259Pair := ⟨s.master.view true, s.slave.view false⟩

end Pic8259Pair

namespace Pic

variable {p : Pic} {m : Bool}

theorem icw2_icw2 (v : BitVec 8) : v &&& 0xF8#8 &&& 0xF8#8 = v &&& 0xF8#8 := by
  rw [BitVec.and_assoc]
  rfl

variable (m : Bool)

theorem wiring_wiring (v : BitVec 8) : wiring m (wiring m v) = wiring m v := by
  cases m with
  | true => rfl
  | false =>
    show v &&& 0x07#8 &&& 0x07#8 = v &&& 0x07#8
    rw [BitVec.and_assoc]
    rfl

variable (p : Pic)

theorem icw4Expected_view : (p.view m).icw4Expected = p.icw4Expected := by
  show (decide (p.init = .expectIcw4) ||
    (decide (p.init = .expectIcw2 ∨ p.init = .expectIcw3) &&
      (decide (p.init = .expectIcw2 ∨ p.init = .expectIcw3) && p.expectIcw4))) = p.icw4Expected
  rw [Bool.and_self_left]
  rfl

theorem view_view : (p.view m).view m = p.view m := by
  rw [view, icw4Expected_view]
  simp only [view, icw2_icw2, wiring_wiring, Bool.and_self_left]
  congr 1
  · exact Bool.and_self_left _ p.expectIcw4
  · exact Bool.and_self_left _ p.single

theorem resolve_view (exempt : Option (Fin 8)) (levels : List (Fin 8)) :
    (p.view m).resolve exempt levels = p.resolve exempt levels := by
  induction levels with
  | nil => rfl
  | cons irq rest ih =>
    rw [resolve, resolve, ih]
    rfl

theorem highestPending_view (exempt : Option (Fin 8)) :
    (p.view m).highestPending exempt = p.highestPending exempt := resolve_view m p exempt _

theorem setInputLevel_view (irq : Fin 8) (asserted : Bool) :
    (p.view m).setInputLevel irq asserted = (p.setInputLevel irq asserted).view m := by
  cases asserted <;> rfl

/-- An automatic EOI rotates, or does not, as the whole chip would. -/
theorem setInService_view (irq : Fin 8) :
    (p.view m).setInService irq = (p.setInService irq).view m := by
  rw [setInService_eq, setInService_eq]
  by_cases heoi : p.autoEoi = true
  · have hrotate : (p.view m).autoRotate = p.autoRotate := by
      show ((p.autoEoi || p.icw4Expected) && p.autoRotate) = p.autoRotate
      rw [heoi]
      rfl
    rw [if_pos heoi, if_pos (show (p.view m).autoEoi = true from heoi), hrotate]
    split_ifs <;> rfl
  · rw [if_neg heoi, if_neg (show ¬(p.view m).autoEoi = true from heoi)]
    rfl

theorem highestInService_view :
    (p.view m).highestInService = p.highestInService := rfl

theorem poll_view (exempt : Option (Fin 8)) :
    (p.view m).poll exempt = ((p.poll exempt).1, (p.poll exempt).2.view m) := by
  unfold poll
  rw [highestPending_view]
  cases p.highestPending exempt with
  | none => rfl
  | some level => exact Prod.ext rfl (setInService_view m p level)

theorem readPort_view (port : ℕ) (exempt : Option (Fin 8)) :
    (p.view m).readPort port exempt = ((p.readPort port exempt).1, (p.readPort port exempt).2.view m) := by
  unfold readPort
  by_cases hpoll : p.pollPending = true
  · rw [if_pos hpoll, if_pos (show (p.view m).pollPending = true from hpoll)]
    exact poll_view m { p with pollPending := false } exempt
  · rw [if_neg hpoll, if_neg (show ¬(p.view m).pollPending = true from hpoll)]
    by_cases hport : port % 2 = 0
    · rw [if_pos hport, if_pos hport]
      rfl
    · rw [if_neg hport, if_neg hport]
      rfl

/-- The end of service of a level, and the flags it may leave behind. -/
theorem endOfInterrupt_view (ocw2 : BitVec 8) :
    ((p.view m).endOfInterrupt ocw2).view m = (p.endOfInterrupt ocw2).view m := by
  have hrotate (b : Bool) :
      ({ p.view m with autoRotate := b }).view m = ({ p with autoRotate := b }).view m := by
    show { (p.view m).view m with autoRotate := (p.autoEoi || (p.view m).icw4Expected) && b } =
      { p.view m with autoRotate := (p.autoEoi || p.icw4Expected) && b }
    rw [view_view, icw4Expected_view]
  exact endOfInterrupt_related (R := fun p q => p.view m = q.view m) ocw2
    (highestInService_view m p).symm (view_view m p) (hrotate _)
    (fun level => view_view m (p.clearInService level))
    (fun level => view_view m { p with lowest := level })
    fun level => view_view m { p.clearInService level with lowest := level }

theorem writeIcw1_view (value : BitVec 8) :
    ((p.view m).writeIcw1 value).view m = (p.writeIcw1 value).view m := by
  simp only [writeIcw1, view, icw4Expected, icw2_icw2, wiring_wiring, Bool.and_self_left, Bool.and_false]

theorem writeOcw3_view (value : BitVec 8) :
    (p.view m).writeOcw3 value = (p.writeOcw3 value).view m := by
  unfold writeOcw3
  dsimp only
  split_ifs <;> rfl

theorem writeData_view (value : BitVec 8) :
    ((p.view m).writeData value).view m = (p.writeData value).view m := by
  cases hinit : p.init with
  | ready => simp [writeData, view, icw4Expected, hinit, icw2_icw2, wiring_wiring]
  | expectIcw2 =>
    cases hsingle : p.single <;> cases hicw4 : p.expectIcw4 <;>
      simp [writeData, view, icw4Expected, hinit, hsingle, hicw4, wiring_wiring]
  | expectIcw3 =>
    cases hicw4 : p.expectIcw4 <;>
      simp [writeData, view, icw4Expected, hinit, hicw4, icw2_icw2]
  | expectIcw4 => simp [writeData, view, icw4Expected, hinit, icw2_icw2, wiring_wiring]

theorem writePort_view (port : ℕ) (value : BitVec 8) :
    ((p.view m).writePort port value).view m = (p.writePort port value).view m := by
  unfold writePort writeCommand
  split_ifs
  · exact writeIcw1_view m p value
  · rw [writeOcw3_view, view_view]
  · exact endOfInterrupt_view m p value
  · exact writeData_view m p value

end Pic

namespace Pic8259Pair

variable (s : Pic8259Pair)

theorem view_view : s.view.view = s.view := by
  unfold view
  rw [Pic.view_view, Pic.view_view]

theorem cascadePin_view : s.view.cascadePin = s.cascadePin := by
  apply Fin.ext
  show (s.slave.icw3 &&& 0x07#8).toNat % 8 = s.slave.icw3.toNat % 8
  rw [BitVec.toNat_and]
  have hmask : s.slave.icw3.toNat &&& (0x07#8).toNat = s.slave.icw3.toNat % 2 ^ 3 :=
    Nat.and_two_pow_sub_one_eq_mod _ 3
  rw [hmask]
  omega

theorem masterCascadeExempt_view :
    s.view.masterCascadeExempt = s.masterCascadeExempt := by
  unfold masterCascadeExempt
  rw [cascadePin_view]
  rfl

theorem masterPending_view : s.view.masterPending = s.masterPending := by
  unfold masterPending
  rw [masterCascadeExempt_view]
  exact Pic.highestPending_view true s.master _

theorem slavePending_view :
    s.view.slave.highestPending none = s.slave.highestPending none :=
  Pic.highestPending_view false s.slave none

theorem syncCascade_view : s.view.syncCascade = s.syncCascade.view := by
  unfold syncCascade
  rw [cascadePin_view, slavePending_view]
  show Pic8259Pair.mk _ _ = Pic8259Pair.mk _ _
  rw [← Pic.setInputLevel_view]
  rfl

/-- Whatever is done to the chips of a pair and then to its cascade. -/
theorem syncCascade_congr {s t : Pic8259Pair} (h : s.view = t.view) :
    s.syncCascade.view = t.syncCascade.view := by
  rw [← syncCascade_view, ← syncCascade_view, h]

theorem view_mk {master master' slave slave' : Pic} (hmaster : master.view true = master'.view true)
    (hslave : slave.view false = slave'.view false) :
    (Pic8259Pair.mk master slave).view = (Pic8259Pair.mk master' slave').view := by
  unfold view
  rw [hmaster, hslave]

theorem cascadePin_congr {s t : Pic8259Pair} (h : s.view = t.view) : s.cascadePin = t.cascadePin := by
  rw [← cascadePin_view, h, cascadePin_view]

theorem setInputLevel_respects (irq : Fin 8) (asserted : Bool) :
    ((s.view.master.setInputLevel irq asserted).view true) =
      (s.master.setInputLevel irq asserted).view true := by
  show ((s.master.view true).setInputLevel irq asserted).view true = _
  rw [Pic.setInputLevel_view, Pic.view_view]

theorem writeSlave_view (port : ℕ) (value : BitVec 8) :
    (s.view.writeSlave port value).view = (s.writeSlave port value).view := by
  have hslave := Pic.writePort_view false s.slave port value
  have hwritten : (Pic8259Pair.mk s.view.master (s.view.slave.writePort port value)).view =
      (Pic8259Pair.mk s.master (s.slave.writePort port value)).view :=
    view_mk (Pic.view_view true s.master) hslave
  unfold writeSlave
  dsimp only
  rw [cascadePin_view, cascadePin_congr hwritten]
  split_ifs
  · exact syncCascade_congr (view_mk (s.setInputLevel_respects s.cascadePin false) hslave)
  · exact syncCascade_congr hwritten

theorem writePort_view (port : ℕ) (value : BitVec 8) :
    (s.view.writePort port value).view = (s.writePort port value).view := by
  unfold writePort
  split_ifs
  · exact view_mk (Pic.writePort_view true s.master port value) (Pic.view_view false s.slave)
  · exact s.writeSlave_view port value
  · exact s.view_view

theorem readPort_view (port : ℕ) :
    s.view.readPort port = ((s.readPort port).1, (s.readPort port).2.view) := by
  unfold readPort
  rw [masterCascadeExempt_view]
  split_ifs
  · dsimp only
    rw [show s.view.master = s.master.view true from rfl, Pic.readPort_view]
    rfl
  · dsimp only
    rw [show s.view.slave = s.slave.view false from rfl, Pic.readPort_view, ← syncCascade_view]
    rfl
  · rfl

theorem request_view (irq : ℕ) : s.view.request irq = (s.request irq).view := by
  unfold request
  rw [cascadePin_view]
  split_ifs <;> rfl

theorem setIrqLevel_view (irq : ℕ) (asserted : Bool) :
    s.view.setIrqLevel irq asserted = (s.setIrqLevel irq asserted).view := by
  unfold setIrqLevel
  split_ifs with hmaster hslave
  · show Pic8259Pair.mk ((s.master.view true).setInputLevel _ _) _ = Pic8259Pair.mk _ _
    rw [Pic.setInputLevel_view]
    rfl
  · rw [← syncCascade_view]
    show syncCascade ⟨s.master.view true, (s.slave.view false).setInputLevel _ _⟩ = _
    rw [Pic.setInputLevel_view]
    rfl
  · rfl

theorem vector_view (m : Bool) (p : Pic) (irq : Fin 8) : (p.view m).vector irq = p.vector irq := by
  unfold Pic.vector
  rw [show (p.view m).icw2 = p.icw2 &&& 0xF8#8 from rfl, Pic.icw2_icw2]

theorem slaveServed_view : s.view.slaveServed = s.slaveServed.view false := by
  unfold slaveServed
  rw [slavePending_view]
  cases s.slave.highestPending none with
  | none => rfl
  | some irq => exact Pic.setInService_view false s.slave irq

def answered (u : Pic8259Pair) (irq : Fin 8) : Option (BitVec 8 × Fin 8) × Pic8259Pair :=
  if !hasBit u.master.icw3 irq || decide (irq ≠ u.cascadePin) then (some (u.master.vector irq, irq), u)
  else
    (some (u.slave.vector ((u.slave.highestPending none).getD 7), irq),
      ({ u with slave := u.slaveServed }).syncCascade)

theorem answered_view (u : Pic8259Pair) (irq : Fin 8) :
    u.view.answered irq = ((u.answered irq).1, (u.answered irq).2.view) := by
  unfold answered
  rw [show u.view.master.icw3 = u.master.icw3 from rfl, cascadePin_view]
  split_ifs
  · rw [show u.view.master = u.master.view true from rfl, vector_view]
  · rw [slavePending_view, show u.view.slave = u.slave.view false from rfl, vector_view,
      slaveServed_view, ← syncCascade_view]
    rfl

theorem acknowledge_some {s : Pic8259Pair} {irq : Fin 8} (h : s.masterPending = some irq) :
    s.acknowledgeWithIrq = answered { s with master := s.master.setInService irq } irq := by
  rw [acknowledgeWithIrq, h]
  rfl

theorem acknowledge_view :
    s.view.acknowledgeWithIrq = (s.acknowledgeWithIrq.1, s.acknowledgeWithIrq.2.view) := by
  have hpending := s.masterPending_view
  cases hmaster : s.masterPending with
  | none =>
    rw [hmaster] at hpending
    rw [acknowledgeWithIrq, acknowledgeWithIrq, hpending, hmaster]
  | some irq =>
    rw [hmaster] at hpending
    have hserved : Pic8259Pair.mk (s.view.master.setInService irq) s.view.slave =
        (Pic8259Pair.mk (s.master.setInService irq) s.slave).view := by
      rw [show s.view.master = s.master.view true from rfl, Pic.setInService_view]
      rfl
    rw [acknowledge_some hpending, acknowledge_some hmaster, hserved, answered_view]

theorem step_view (e : Event) : (s.view.step e).view = (s.step e).view := by
  cases e with
  | request irq =>
    show (s.view.request irq).view = _
    rw [request_view, view_view]
    rfl
  | setIrqLevel irq asserted =>
    show (s.view.setIrqLevel irq asserted).view = _
    rw [setIrqLevel_view, view_view]
    rfl
  | writePort port value => exact s.writePort_view port value
  | readPort port =>
    show (s.view.readPort port).2.view = _
    rw [readPort_view, view_view]
    rfl
  | acknowledge =>
    show s.view.acknowledgeWithIrq.2.view = _
    rw [acknowledge_view, view_view]
    rfl

/-- No access tells a pair from its view. -/
theorem view_decides : Decides access view := by
  refine decides_of_normal (fun a s => ?_) fun a s => ?_
  · cases a with
    | event e =>
      cases e with
      | request | setIrqLevel | writePort => rfl
      | readPort port =>
        show Answer.byte (s.view.readPort port).1 = _
        rw [readPort_view]
        rfl
      | acknowledge =>
        show Answer.vector s.view.acknowledgeWithIrq.1 = _
        rw [acknowledge_view]
        rfl
    | interruptPending =>
      show Answer.flag s.view.masterPending.isSome = _
      rw [masterPending_view]
      rfl
    | irqUnmasked irq => rfl
    | deliverable irq =>
      show Answer.flag (s.view.deliverable irq) = Answer.flag (s.deliverable irq)
      unfold deliverable
      rw [cascadePin_view]
      rfl
  · cases a with
    | event e => exact s.step_view e
    | interruptPending | irqUnmasked | deliverable => exact s.view_view

end Pic8259Pair

end IzarraVM.Interrupts
