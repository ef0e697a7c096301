import IzarraVM.ByteBits
import IzarraVM.GuestMemory
import IzarraVM.MachineWords
import IzarraVM.CommonInstances

/-! The 8237A pair: channels, chips, the memory-to-memory copy, ports and page registers. -/
namespace IzarraVM.Dma

/-! The memory access of each datapath, at the address the channel drives. -/

def fetchByte (address : ℕ) (m : Memory) : Option UInt8 × Memory := (m.readU8 address, m)

def fetchWord (address : ℕ) (m : Memory) : Option UInt16 × Memory :=
  (do
    let lo ← m.readU8 address
    let hi ← m.readU8 (address + 1)
    pure (UInt16.ofNat (lo.toNat + 2 ^ 8 * hi.toNat)), m)

def storeByte (byte : UInt8) (address : ℕ) (m : Memory) : Option ℕ × Memory :=
  match m.writeU8 address byte with
  | none => (none, m)
  | some m => (some address, m)

def storeWord (word : UInt16) (address : ℕ) (m : Memory) : Option Unit × Memory :=
  match m.writeU8 address word.toUInt8 with
  | none => (none, m)
  | some m =>
    match m.writeU8 (address + 1) (word >>> 8).toUInt8 with
    | none => (none, m)
    | some m => (some (), m)

structure Channel where
  baseAddr : BitVec 16
  curAddr : BitVec 16
  baseCount : BitVec 16
  curCount : BitVec 16
  page : BitVec 8
  addrDecrement : Bool
  autoInit : Bool
  /-- Mode bits 2 and 3: verify, write to memory, read from memory. -/
  transferKind : BitVec 8
  /-- Mode bits 6 and 7: demand, single, block, cascade. -/
  transferMode : BitVec 8
  mask : Bool
  reachedTc : Bool
  dreq : Bool
  active : Bool
  transferCycles : ℕ
  deriving DecidableEq, Repr

namespace Channel

def powerOn : Channel where
  baseAddr := 0
  curAddr := 0
  baseCount := 0
  curCount := 0
  page := 0
  addrDecrement := false
  autoInit := false
  transferKind := 0
  transferMode := 0
  mask := true
  reachedTc := false
  dreq := false
  active := false
  transferCycles := 0

variable (c : Channel)

def setMode (value : BitVec 8) : Channel :=
  { c with
    transferKind := (value >>> 2) &&& 0x3#8
    autoInit := value &&& 0x10#8 ≠ 0
    addrDecrement := value &&& 0x20#8 ≠ 0
    transferMode := (value >>> 6) &&& 0x3#8 }

def byteAddress : ℕ := c.page.toNat <<< 16 ||| c.curAddr.toNat

def wordAddress : ℕ := (c.page.toNat &&& 0xfe) <<< 16 ||| c.curAddr.toNat <<< 1

def stepTransfer : Channel :=
  let stepped := { c with
    transferCycles := saturatingAdd64 c.transferCycles 1
    curAddr := if c.addrDecrement then c.curAddr - 1 else c.curAddr + 1
    reachedTc := c.curCount = 0
    curCount := c.curCount - 1 }
  if stepped.reachedTc then
    if stepped.autoInit then
      { stepped with curAddr := stepped.baseAddr, curCount := stepped.baseCount }
    else { stepped with mask := true }
  else stepped

def granted : Channel := { c with reachedTc := false, active := true }

variable {α : Type}

def transfer (kind : BitVec 8) (access : Memory → Option α × Memory) (m : Memory) :
    Option α × Channel × Memory :=
  if c.mask ∨ c.transferKind ≠ kind then (none, c, m)
  else
    match access m with
    | (none, m) => (none, c, m)
    | (some value, m) => (some value, c.stepTransfer, m)

def readByte (m : Memory) : Option UInt8 × Channel × Memory :=
  c.transfer 2 (fetchByte c.byteAddress) m

def readWord (m : Memory) : Option UInt16 × Channel × Memory :=
  c.transfer 2 (fetchWord c.wordAddress) m

def writeByte (byte : UInt8) (m : Memory) : Option ℕ × Channel × Memory :=
  c.transfer 1 (storeByte byte c.byteAddress) m

def writeWord (word : UInt16) (m : Memory) : Option Unit × Channel × Memory :=
  c.transfer 1 (storeWord word c.wordAddress) m

def verify (m : Memory) : Option Unit × Channel × Memory := c.transfer 0 (fun m => (some (), m)) m

end Channel

structure Chip where
  channels : Vector Channel 4
  hiLo : Bool
  command : BitVec 8
  status : BitVec 8
  requestReg : BitVec 8
  deriving DecidableEq, Repr

namespace Chip

def powerOn : Chip where
  channels := Vector.replicate 4 Channel.powerOn
  hiLo := false
  command := 0
  status := 0
  requestReg := 0

variable (chip : Chip)

variable (ci : Fin 4)

def channel : Channel := chip.channels[ci.val]

def setChannel (c : Channel) : Chip :=
  { chip with channels := chip.channels.set ci c }

def mapChannels (f : Fin 4 → Channel → Channel) : Chip :=
  { chip with channels := Vector.ofFn fun ci => f ci (chip.channel ci) }

variable (localReg : Fin 16)

def addrChannel : Option (Fin 4) :=
  if h : localReg.val < 8 ∧ localReg.val % 2 = 0 then some ⟨localReg.val / 2, by omega⟩ else none

def countChannel : Option (Fin 4) :=
  if h : localReg.val < 8 ∧ localReg.val % 2 = 1 then some ⟨localReg.val / 2, by omega⟩ else none

def writeHalf (old : BitVec 16) (value : BitVec 8) : BitVec 16 :=
  if !chip.hiLo then (old &&& 0xff00#16) ||| value.setWidth 16
  else (old &&& 0x00ff#16) ||| (value.setWidth 16 <<< 8)

variable (value : BitVec 8)

def writeAddr : Chip :=
  let c := chip.channel ci
  let new := chip.writeHalf c.baseAddr value
  { chip.setChannel ci { c with baseAddr := new, curAddr := new } with hiLo := !chip.hiLo }

def writeCount : Chip :=
  let c := chip.channel ci
  let new := chip.writeHalf c.baseCount value
  { chip.setChannel ci { c with baseCount := new, curCount := new, reachedTc := false } with
    status := clearBit chip.status ci
    hiLo := !chip.hiLo }

def masterClear : Chip :=
  { chip.mapChannels fun _ c => { c with mask := true, dreq := false, active := false } with
    command := 0
    status := 0
    requestReg := 0
    hiLo := false }

def selected : Fin 4 := ⟨(value &&& 0x03#8).toNat, by
  have hle : (value &&& 0x03#8).toNat ≤ 3 := by
    rw [BitVec.toNat_and]
    exact Nat.and_le_right
  omega⟩

def setMask (c : Channel) (mask : Bool) : Channel :=
  if mask then { c with mask := true, active := false } else { c with mask := false }

def writeLocal : Chip :=
  match addrChannel localReg, countChannel localReg with
  | some ci, _ => chip.writeAddr ci value
  | none, some ci => chip.writeCount ci value
  | none, none =>
    let ci := selected value
    match localReg with
    | 8 => { chip with command := value }
    | 9 =>
      { chip with
        requestReg :=
          if value &&& 0x04#8 ≠ 0 then setBit chip.requestReg ci else clearBit chip.requestReg ci }
    | 10 => chip.setChannel ci (setMask (chip.channel ci) (value &&& 0x04#8 ≠ 0))
    | 11 => chip.setChannel ci ((chip.channel ci).setMode value)
    | 12 => { chip with hiLo := false }
    | 13 => chip.masterClear
    | 14 => chip.mapChannels fun _ c => { c with mask := false }
    | 15 => chip.mapChannels fun ci c => setMask c (hasBit value ci)
    | _ => chip

def memToMemEnabled : Bool := chip.command &&& 0x01#8 ≠ 0

def channel0Hold : Bool := chip.command &&& 0x02#8 ≠ 0

def controllerDisabled : Bool := chip.command &&& 0x04#8 ≠ 0

def setHardwareRequest (asserted : Bool) : Chip :=
  let c := { chip.channel ci with dreq := asserted }
  chip.setChannel ci (if !asserted ∧ c.transferMode ≠ 2 then { c with active := false } else c)

def requestActive : Bool := (chip.channel ci).dreq || hasBit chip.requestReg ci

def beginCycle : Bool × Chip :=
  let c := chip.channel ci
  let blockActive := c.transferMode = 2 ∧ c.active
  if chip.controllerDisabled ∨ c.mask ∨ c.transferMode = 3 ∨
      (¬ chip.requestActive ci ∧ ¬ blockActive) then (false, chip)
  else (true, chip.setChannel ci c.granted)

def finishCycle (completed : Bool) : Chip :=
  let c := chip.channel ci
  if !completed then chip.setChannel ci { c with active := false }
  else if c.reachedTc then
    { chip.setChannel ci { c with active := false } with
      status := setBit chip.status ci
      requestReg := clearBit chip.requestReg ci }
  else if c.transferMode ≠ 2 then chip.setChannel ci { c with active := false }
  else chip

variable {α : Type}

def cycle (transfer : Channel → Memory → Option α × Channel × Memory) (m : Memory) :
    Option α × Chip × Memory :=
  match chip.beginCycle ci with
  | (false, chip) => (none, chip, m)
  | (true, chip) =>
    match transfer (chip.channel ci) m with
    | (value, c, m) => (value, (chip.setChannel ci c).finishCycle ci value.isSome, m)

variable (m : Memory)

def readByte : Option UInt8 × Chip × Memory :=
  chip.cycle ci Channel.readByte m

def readWord : Option UInt16 × Chip × Memory :=
  chip.cycle ci Channel.readWord m

def writeByte (byte : UInt8) (m : Memory) : Option ℕ × Chip × Memory :=
  chip.cycle ci (Channel.writeByte · byte) m

def writeWord (word : UInt16) (m : Memory) : Option Unit × Chip × Memory :=
  chip.cycle ci (Channel.writeWord · word) m

def verify : Option Unit × Chip × Memory := chip.cycle ci Channel.verify m

def releaseCopy : Chip :=
  let chip := chip.setChannel 0 { chip.channel 0 with active := false }
  chip.setChannel 1 { chip.channel 1 with active := false }

def stepSource : Chip :=
  let c := chip.channel 0
  chip.setChannel 0 (if chip.channel0Hold then
    { c with
      transferCycles := saturatingAdd64 c.transferCycles 1
      curCount := c.curCount - 1 }
  else c.stepTransfer)

/-- The copy's loop, one byte a round, with the rounds the destination's count can take. -/
def copyLoop : ℕ → Chip → ℕ → Memory → Option ℕ × Chip × Memory
  | 0, chip, _, m => (none, chip, m)
  | rounds + 1, chip, copied, m =>
    match m.readU8 (chip.channel 0).byteAddress with
    | none => (none, chip.releaseCopy, m)
    | some byte =>
      match m.writeU8 (chip.channel 1).byteAddress byte with
      | none => (none, chip.releaseCopy, m)
      | some m =>
        let chip := (chip.setChannel 1 (chip.channel 1).stepTransfer).stepSource
        if (chip.channel 1).reachedTc then
          (some (copied + 1),
            { chip with
              status := setBit chip.status 1
              requestReg := chip.requestReg &&& ~~~0x03#8 }.releaseCopy, m)
        else copyLoop rounds chip (copied + 1) m

/-- The channel 1 count bounds the copy's rounds: it ends at the terminal count. -/
def memToMem : Option ℕ × Chip × Memory :=
  if chip.controllerDisabled ∨ !chip.memToMemEnabled then (none, chip, m)
  else if (chip.channel 0).mask then (none, chip, m)
  else
    let started := chip.setChannel 0 { chip.channel 0 with active := true }
    let started := started.setChannel 1 { started.channel 1 with active := true }
    copyLoop ((started.channel 1).curCount.toNat + 1) started 0 m

end Chip

inductive Side where
  | master
  | slave
  deriving DecidableEq, Repr

structure Line where
  side : Side
  ci : Fin 4
  deriving DecidableEq, Repr

structure Controller where
  master : Chip
  slave : Chip
  pageScratch : Vector (BitVec 8) 16
  refreshPage : BitVec 8
  deriving DecidableEq, Repr

namespace Controller

def powerOn : Controller where
  master := Chip.powerOn
  slave := Chip.powerOn
  pageScratch := Vector.replicate 16 0
  refreshPage := 0

variable (d : Controller)

def chip : Side → Chip
  | .master => d.master
  | .slave => d.slave

def setChip (side : Side) (chip : Chip) : Controller :=
  match side with
  | .master => { d with master := chip }
  | .slave => { d with slave := chip }

def channel (line : Line) : Channel := (d.chip line.side).channel line.ci

def slaveLocal (port : ℕ) : Option (Fin 16) :=
  if h : 0xc0 ≤ port ∧ port ≤ 0xde ∧ port % 2 = 0 then some ⟨(port - 0xc0) / 2, by omega⟩
  else none

def pageTarget : ℕ → Option Line
  | 0x83 => some ⟨.master, 1⟩
  | 0x81 => some ⟨.master, 2⟩
  | 0x82 => some ⟨.master, 3⟩
  | 0x87 => some ⟨.master, 0⟩
  | 0x8b => some ⟨.slave, 1⟩
  | 0x89 => some ⟨.slave, 2⟩
  | 0x8a => some ⟨.slave, 3⟩
  | _ => none

def scratchPage (port : ℕ) : Option (Fin 16) :=
  if port = 0x84 ∨ port = 0x85 ∨ port = 0x86 ∨ port = 0x88 ∨ port = 0x8c ∨ port = 0x8d ∨
      port = 0x8e then some ⟨port % 16, Nat.mod_lt _ (by decide)⟩
  else none

def setPage (line : Line) (value : BitVec 8) : Controller :=
  d.setChip line.side
    ((d.chip line.side).setChannel line.ci { d.channel line with page := value })

def writePort (port : ℕ) (value : BitVec 8) : Bool × Controller :=
  if h : port < 16 then (true, { d with master := d.master.writeLocal ⟨port, h⟩ value })
  else
    match slaveLocal port, pageTarget port, scratchPage port with
    | some localReg, _, _ => (true, { d with slave := d.slave.writeLocal localReg value })
    | none, some line, _ => (true, d.setPage line value)
    | none, none, scratch =>
      if port = 0x8f then (true, { d with refreshPage := value })
      else
        match scratch with
        | some i => (true, { d with pageScratch := d.pageScratch.set i value })
        | none => (false, d)

variable {α : Type}

def request (line : Line) (cycle : Chip → Memory → Option α × Chip × Memory) (m : Memory) :
    Option α × Controller × Memory :=
  match cycle ((d.chip line.side).setHardwareRequest line.ci true) m with
  | (value, chip, m) => (value, d.setChip line.side (chip.setHardwareRequest line.ci false), m)

def readByte (line : Line) (m : Memory) : Option UInt8 × Controller × Memory :=
  d.request line (·.readByte line.ci) m

def readWord (line : Line) (m : Memory) : Option UInt16 × Controller × Memory :=
  match line.side with
  | .master => (none, d, m)
  | .slave => d.request line (·.readWord line.ci) m

def writeByte (line : Line) (byte : UInt8) (m : Memory) : Option ℕ × Controller × Memory :=
  d.request line (·.writeByte line.ci byte) m

def writeWord (line : Line) (word : UInt16) (m : Memory) : Option Unit × Controller × Memory :=
  match line.side with
  | .master => (none, d, m)
  | .slave => d.request line (·.writeWord line.ci word) m

def verify (line : Line) (m : Memory) : Option Unit × Controller × Memory :=
  d.request line (·.verify line.ci) m

def memToMem (m : Memory) : Option ℕ × Controller × Memory :=
  match d.master.memToMem m with
  | (copied, chip, m) => (copied, { d with master := chip }, m)

end Controller

end IzarraVM.Dma
