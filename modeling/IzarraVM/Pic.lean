import IzarraVM.ByteBits
import IzarraVM.CommonInstances

/-! The 8259A interrupt controller and the cascaded pair, without the tests' inspectors. -/
namespace IzarraVM.Interrupts

inductive InitStage where
  | ready
  | expectIcw2
  | expectIcw3
  | expectIcw4
deriving DecidableEq

structure Pic where
  irr : BitVec 8
  asserted : BitVec 8
  isr : BitVec 8
  imr : BitVec 8
  icw2 : BitVec 8
  icw3 : BitVec 8
  init : InitStage
  expectIcw4 : Bool
  single : Bool
  levelTriggered : Bool
  autoEoi : Bool
  buffered : Bool
  isMaster : Bool
  readIsr : Bool
  pollPending : Bool
  specialMask : Bool
  sfnm : Bool
  lowest : Fin 8
  autoRotate : Bool

def levelOf (v : BitVec 8) : Fin 8 := ⟨v.toNat%8, Nat.mod_lt _ (by decide)⟩

namespace Pic

def initial : Pic where
  irr := 0
  asserted := 0
  isr := 0
  imr := 0
  icw2 := 0
  icw3 := 0
  init := .ready
  expectIcw4 := false
  single := false
  levelTriggered := false
  autoEoi := false
  buffered := false
  isMaster := false
  readIsr := false
  pollPending := false
  specialMask := false
  sfnm := false
  lowest := 0
  autoRotate := false

variable (p : Pic)

def priorityOrder : List (Fin 8) := (List.finRange 8).map fun slot => p.lowest+1+slot

variable (irq : Fin 8)

def request : Pic := { p with irr := setBit p.irr irq }

def setInputLevel (asserted : Bool) : Pic :=
  if asserted then
    { p with
      asserted := setBit p.asserted irq
      -- an edge is latched once, a level as long as it is held
      irr := if p.levelTriggered || !hasBit p.asserted irq then setBit p.irr irq else p.irr }
  else
    { p with
      asserted := clearBit p.asserted irq
      irr := if p.levelTriggered then clearBit p.irr irq else p.irr }

def clearInService : Pic :=
  { p with
    isr := clearBit p.isr irq
    irr := if p.levelTriggered && hasBit p.asserted irq then setBit p.irr irq else p.irr }

def highestInService : Option (Fin 8) := p.priorityOrder.find? fun irq => hasBit p.isr irq

def endOfInterrupt (ocw2 : BitVec 8) : Pic :=
  let level := levelOf ocw2
  match ocw2.toNat/32 with
  | 0 | 4 => { p with autoRotate := hasBit ocw2 7 }
  | 1 =>
    match p.highestInService with
    | some level => p.clearInService level
    | none => p
  | 3 => p.clearInService level
  | 5 =>
    match p.highestInService with
    | some level => { p.clearInService level with lowest := level }
    | none => p
  | 6 => { p with lowest := level }
  | 7 => { p.clearInService level with lowest := level }
  | _ => p

def resolve (cascadeExempt : Option (Fin 8)) : List (Fin 8) → Option (Fin 8)
  | [] => none
  | irq :: rest =>
    if hasBit p.isr irq && decide (cascadeExempt ≠ some irq) then
      if p.specialMask then resolve cascadeExempt rest else none
    else if hasBit (p.irr &&& ~~~p.imr) irq then some irq
    else resolve cascadeExempt rest

def highestPending (cascadeExempt : Option (Fin 8)) : Option (Fin 8) :=
  p.resolve cascadeExempt p.priorityOrder

def vector : BitVec 8 := (p.icw2 &&& 0xF8#8) ||| BitVec.ofNat 8 irq

def setInService : Pic :=
  let p := { p with isr := setBit p.isr irq, irr := clearBit p.irr irq }
  if p.autoEoi then
    let p := p.clearInService irq
    if p.autoRotate then { p with lowest := irq } else p
  else p

def poll (cascadeExempt : Option (Fin 8)) : BitVec 8 × Pic :=
  match p.highestPending cascadeExempt with
  | some level => (0x80#8 ||| BitVec.ofNat 8 level, p.setInService level)
  | none => (0, p)

def readPort (port : ℕ) (cascadeExempt : Option (Fin 8)) : BitVec 8 × Pic :=
  if p.pollPending then ({ p with pollPending := false }).poll cascadeExempt
  else if port%2 = 0 then (if p.readIsr then p.isr else p.irr, p)
  else (p.imr, p)

variable (value : BitVec 8)

def writeIcw1 : Pic :=
  { p with
    isr := 0
    imr := 0
    readIsr := false
    lowest := 7
    autoRotate := false
    expectIcw4 := hasBit value 0
    single := hasBit value 1
    levelTriggered := hasBit value 3
    irr := if hasBit value 3 then p.asserted else 0
    init := .expectIcw2 }

def writeOcw3 : Pic :=
  let p := if hasBit value 1 then { p with readIsr := hasBit value 0 } else p
  let p := if hasBit value 2 then { p with pollPending := true } else p
  if hasBit value 6 then { p with specialMask := hasBit value 5 } else p

def writeCommand : Pic :=
  if hasBit value 4 then p.writeIcw1 value
  else if hasBit value 3 then p.writeOcw3 value
  else p.endOfInterrupt value

def writeData : Pic :=
  match p.init with
  | .expectIcw2 =>
    { p with
      icw2 := value
      init := if !p.single then .expectIcw3 else if p.expectIcw4 then .expectIcw4 else .ready }
  | .expectIcw3 => { p with icw3 := value, init := if p.expectIcw4 then .expectIcw4 else .ready }
  | .expectIcw4 =>
    { p with
      autoEoi := hasBit value 1
      buffered := hasBit value 3
      isMaster := hasBit value 2
      sfnm := hasBit value 4
      init := .ready }
  | .ready => { p with imr := value }

def writePort (port : ℕ) (value : BitVec 8) : Pic :=
  if port%2 = 0 then p.writeCommand value else p.writeData value

end Pic

structure Pic8259Pair where
  master : Pic
  slave : Pic

namespace Pic8259Pair

def initial : Pic8259Pair := ⟨.initial, .initial⟩

variable (s : Pic8259Pair)

def cascadePin : Fin 8 := levelOf s.slave.icw3

def syncCascade : Pic8259Pair :=
  { s with
    master := s.master.setInputLevel s.cascadePin (s.slave.highestPending none).isSome }

def masterCascadeExempt : Option (Fin 8) :=
  if s.master.sfnm && hasBit s.master.icw3 s.cascadePin then some s.cascadePin else none

def masterPending : Option (Fin 8) := s.master.highestPending s.masterCascadeExempt

def writeSlave (port : ℕ) (value : BitVec 8) : Pic8259Pair :=
  let s' : Pic8259Pair := { s with slave := s.slave.writePort port value }
  let s' :=
    if s.cascadePin ≠ s'.cascadePin then
      { s' with master := s'.master.setInputLevel s.cascadePin false }
    else s'
  s'.syncCascade

def writePort (port : ℕ) (value : BitVec 8) : Pic8259Pair :=
  if port = 0x20 ∨ port = 0x21 then { s with master := s.master.writePort port value }
  else if port = 0xA0 ∨ port = 0xA1 then s.writeSlave port value
  else s

def readPort (port : ℕ) : Option (BitVec 8) × Pic8259Pair :=
  if port = 0x20 ∨ port = 0x21 then
    let (value, master) := s.master.readPort port s.masterCascadeExempt
    (some value, { s with master })
  else if port = 0xA0 ∨ port = 0xA1 then
    let (value, slave) := s.slave.readPort port none
    (some value, ({ s with slave }).syncCascade)
  else (none, s)

def request (irq : ℕ) : Pic8259Pair :=
  if h : irq < 8 then { s with master := s.master.request ⟨irq, h⟩ }
  else if h : irq-8 < 8 then
    { master := s.master.request s.cascadePin, slave := s.slave.request ⟨irq-8, h⟩ }
  else s

def setIrqLevel (irq : ℕ) (asserted : Bool) : Pic8259Pair :=
  if h : irq < 8 then { s with master := s.master.setInputLevel ⟨irq, h⟩ asserted }
  else if h : irq-8 < 8 then
    ({ s with slave := s.slave.setInputLevel ⟨irq-8, h⟩ asserted }).syncCascade
  else s

def slaveServed : Pic :=
  match s.slave.highestPending none with
  | some irq => s.slave.setInService irq
  | none => s.slave

def acknowledgeWithIrq : Option (BitVec 8 × Fin 8) × Pic8259Pair :=
  match s.masterPending with
  | none => (none, s)
  | some masterIrq =>
    let s : Pic8259Pair := { s with master := s.master.setInService masterIrq }
    if !hasBit s.master.icw3 masterIrq || decide (masterIrq ≠ s.cascadePin) then
      (some (s.master.vector masterIrq, masterIrq), s)
    else
      -- a slave line that dropped before the acknowledge gives a spurious IR7
      let slaveIrq := (s.slave.highestPending none).getD 7
      (some (s.slave.vector slaveIrq, masterIrq), ({ s with slave := s.slaveServed }).syncCascade)

end Pic8259Pair

inductive Event where
  | request (irq : ℕ)
  | setIrqLevel (irq : ℕ) (asserted : Bool)
  | writePort (port : ℕ) (value : BitVec 8)
  | readPort (port : ℕ)
  | acknowledge

def Pic8259Pair.step (s : Pic8259Pair) : Event → Pic8259Pair
  | .request irq => s.request irq
  | .setIrqLevel irq asserted => s.setIrqLevel irq asserted
  | .writePort port value => s.writePort port value
  | .readPort port => (s.readPort port).2
  | .acknowledge => s.acknowledgeWithIrq.2

end IzarraVM.Interrupts
