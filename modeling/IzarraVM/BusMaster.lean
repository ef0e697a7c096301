import IzarraVM.Ata
import IzarraVM.CheckedRuns
import IzarraVM.GuestMemory
import IzarraVM.RatePhase

/-! The PIIX4 bus-master IDE engine: registers, the descriptor table walk and the completion. -/
namespace IzarraVM.Bmide
open Checked (Slip)
open Ata (AtaDisk DmaDirection DmaRequest)

def commandStart : BitVec 8 := 0x01#8
def commandReadFromDisk : BitVec 8 := 0x08#8
def statusActive : BitVec 8 := 0x01#8
def statusError : BitVec 8 := 0x02#8
def statusInterrupt : BitVec 8 := 0x04#8
def statusDrive0Dma : BitVec 8 := 0x20#8
def statusDrive1Dma : BitVec 8 := 0x40#8
def prdEot : ℕ := 0x80000000
def prdReserved : ℕ := 0x7fff0000

structure PrdSpan where
  address : ℕ
  len : ℕ
  deriving DecidableEq, Repr

structure PrdPlan where
  spans : List PrdSpan
  retiresEot : Bool
  deriving DecidableEq, Repr

structure Transfer where
  direction : DmaDirection
  spans : List PrdSpan
  ticksRemaining : ℕ
  byteLen : ℕ
  retiresEot : Bool

structure Channel where
  command : BitVec 8
  status : BitVec 8
  prdAddress : BitVec 32
  transfer : Option Transfer
  completionWaitsForStop : Bool

def Channel.powerOn : Channel where
  command := 0
  status := 0
  prdAddress := 0
  transfer := none
  completionWaitsForStop := false

structure DiskPort (D : Type) where
  pendingDma : D → Option DmaRequest
  readDmaPayload : D → Option (List UInt8) × D
  completeDmaRead : D → ℕ → D
  completeDmaWrite : D → List UInt8 → Bool × D
  abortDma : D → D

def ataPort : DiskPort AtaDisk where
  pendingDma := AtaDisk.dmaRequest
  readDmaPayload := AtaDisk.readDmaPayload
  completeDmaRead := AtaDisk.completeDmaRead
  completeDmaWrite := AtaDisk.completeDmaWrite
  abortDma := AtaDisk.abortDma

def dmaCommandLatencyTicks : ℕ := Timeline.masterClockHz / 10000

def dmaTransferTicks (request : DmaRequest) : ℕ :=
  saturatingAdd64 dmaCommandLatencyTicks (saturatingU64
    ((request.byteLen * Timeline.masterClockHz + request.bytesPerSecond - 1) /
      request.bytesPerSecond))

def prdAddressFor (direction : DmaDirection) (address : ℕ) : ℕ :=
  match direction with
  | .memoryToDevice => address / 4 * 4
  | .deviceToMemory => address

def prdCount (descriptor : ℕ) : ℕ :=
  if descriptor % 2 ^ 16 = 0 then 2 ^ 16 else descriptor % 2 ^ 16

def parseEntries (memory : Memory) (table pageEnd byteLen : ℕ) (direction : DmaDirection) :
    ℕ → ℕ → List PrdSpan → ℕ → Option PrdPlan
  | 0, _, _, _ => none
  | left + 1, index, spans, covered => do
    let entry := table + index * 8
    let address ← memory.readU32 entry
    let descriptor ← memory.readU32 (entry + 4)
    if pageEnd < entry + 8 then none
    else if descriptor &&& prdReserved ≠ 0 ∨ address % 2 ≠ 0 then none
    else
      let address := prdAddressFor direction address
      let count := prdCount descriptor
      if count % 2 ≠ 0 ∨ 2 ^ 16 < address % 2 ^ 16 + count then none
      else if memory.len < address + count then none
      else
        let used := min count (byteLen - covered)
        let spans := spans ++ [⟨address, used⟩]
        let covered := covered + used
        if covered = byteLen then
          some ⟨spans, decide (used = count ∧ descriptor &&& prdEot ≠ 0)⟩
        else if descriptor &&& prdEot ≠ 0 then none
        else parseEntries memory table pageEnd byteLen direction left (index + 1) spans covered

def parsePrds (memory : Memory) (table : BitVec 32) (byteLen : ℕ) (direction : DmaDirection) :
    Option PrdPlan :=
  let table := table.toNat
  if byteLen = 0 ∨ table % 4 ≠ 0 then none
  else
    let pageEnd := table / 0x1000 * 0x1000 + 0x1000
    parseEntries memory table pageEnd byteLen direction
      (min ((pageEnd - table) / 8) ((byteLen + 1) / 2)) 0 [] 0

def slice (bytes : List UInt8) (start len : ℕ) : Except Slip (List UInt8) :=
  if start + len ≤ bytes.length then .ok ((bytes.drop start).take len) else .error .outOfRange

def copyInto (m : Memory) (address : ℕ) (bytes : List UInt8) : Except Slip Memory :=
  if address + bytes.length ≤ m.len then
    .ok ⟨m.data.take address ++ bytes ++ m.data.drop (address + bytes.length)⟩
  else .error .outOfRange

def scatterWrite (payload : List UInt8) : List PrdSpan → ℕ → Memory → Except Slip Memory
  | [], _, m => .ok m
  | span :: rest, position, m => do
    let chunk ← slice payload position span.len
    let m ← copyInto m span.address chunk
    scatterWrite payload rest (position + span.len) m

def gatherRead (m : Memory) : List PrdSpan → Except Slip (List UInt8)
  | [] => .ok []
  | span :: rest => do
    let chunk ← slice m.data span.address span.len
    let payload ← gatherRead m rest
    pure (chunk ++ payload)

structure BusMasterIde where
  primary : Channel
  secondary : Channel

def BusMasterIde.powerOn : BusMasterIde := ⟨Channel.powerOn, Channel.powerOn⟩

namespace Channel

variable (channel : Channel)

def writeByte (register : ℕ) (value : BitVec 8) : Channel :=
  if register = 0 then
    { channel with command := value &&& (commandStart ||| commandReadFromDisk) }
  else if register = 2 then
    let drives := statusDrive0Dma ||| statusDrive1Dma
    let status := (channel.status &&& ~~~drives) ||| (value &&& drives)
    { channel with status := status &&& ~~~(value &&& (statusError ||| statusInterrupt)) }
  else if 4 ≤ register ∧ register ≤ 7 ∧ channel.status &&& statusActive = 0 then
    let shift := (register - 4) * 8
    let address :=
      (channel.prdAddress &&& ~~~(0xff#32 <<< shift)) ||| (value.setWidth 32 <<< shift)
    { channel with prdAddress := address &&& ~~~3#32 }
  else channel

end Channel

namespace BusMasterIde

variable (b : BusMasterIde)

def ownsIo (port bytes base : ℕ) : Prop :=
  port + (bytes - 1) < 2 ^ 16 ∧ base + 15 < 2 ^ 16 ∧ base ≤ port ∧ port + (bytes - 1) ≤ base + 15

instance (port bytes base : ℕ) : Decidable (ownsIo port bytes base) :=
  inferInstanceAs (Decidable (_ ∧ _))

def writeByte (offset : ℕ) (value : BitVec 8) : BusMasterIde :=
  if offset < 8 then { b with primary := b.primary.writeByte offset value }
  else { b with secondary := b.secondary.writeByte (offset - 8) value }

def writeBytes (offset bytes : ℕ) (value : BitVec 32) : BusMasterIde :=
  (List.range bytes).foldl
    (fun b index => b.writeByte (offset + index) ((value >>> (index * 8)).setWidth 8)) b

variable {D : Type} (port : DiskPort D)

def failPrimary (disk : D) : BusMasterIde × D :=
  ({ b with
    primary := { b.primary with
      transfer := none
      status := (b.primary.status &&& ~~~statusActive) ||| statusError
      completionWaitsForStop := false } }, port.abortDma disk)

def writeIo (ioPort bytes : ℕ) (value : BitVec 32) (disk : Option D) (base : ℕ) :
    BusMasterIde × Option D :=
  let written := b.writeBytes (ioPort - base) bytes value
  match disk with
  | none => (written, none)
  | some disk =>
    let wasActive := b.primary.status &&& statusActive ≠ 0
    let stopped := b.primary.command &&& commandStart ≠ 0 ∧
      written.primary.command &&& commandStart = 0 ∧ (wasActive ∨ (port.pendingDma disk).isSome)
    let changedDirection := wasActive ∧
      (b.primary.command ^^^ written.primary.command) &&& commandReadFromDisk ≠ 0
    if stopped ∧ written.primary.completionWaitsForStop then
      ({ written with
        primary := { written.primary with
          status := written.primary.status &&& ~~~statusActive
          completionWaitsForStop := false } }, some disk)
    else if stopped ∨ changedDirection then
      let (b, disk) := written.failPrimary port disk
      (b, some disk)
    else (written, some disk)

def arm (memory : Memory) (disk : D) (prefixTicks : ℕ) (request : DmaRequest) : BusMasterIde × D :=
  let readFromDisk : Bool := b.primary.command &&& commandReadFromDisk ≠ 0
  if readFromDisk ≠ decide (request.direction = .deviceToMemory) then b.failPrimary port disk
  else
    match parsePrds memory b.primary.prdAddress request.byteLen request.direction with
    | none => b.failPrimary port disk
    | some plan =>
      ({ b with
        primary := { b.primary with
          status := b.primary.status ||| statusActive
          completionWaitsForStop := false
          transfer := some {
            direction := request.direction
            spans := plan.spans
            ticksRemaining := saturatingAdd64 prefixTicks (max (dmaTransferTicks request) 1)
            byteLen := request.byteLen
            retiresEot := plan.retiresEot } } }, disk)

def synchronize (busMasterEnabled : Bool) (memory : Memory) (disk : D) (prefixTicks : ℕ) :
    BusMasterIde × D :=
  if b.primary.transfer.isSome then
    if !busMasterEnabled ∨ (port.pendingDma disk).isNone then b.failPrimary port disk else (b, disk)
  else if b.primary.completionWaitsForStop then
    if !busMasterEnabled then
      ({ b with
        primary := { b.primary with
          status := b.primary.status &&& ~~~statusActive
          completionWaitsForStop := false } }, disk)
    else (b, disk)
  else if !busMasterEnabled ∨ b.primary.command &&& commandStart = 0 then (b, disk)
  else
    match port.pendingDma disk with
    | none => (b, disk)
    | some request => b.arm port memory disk prefixTicks request

def retire (transfer : Transfer) : BusMasterIde :=
  if transfer.retiresEot then
    { b with
      primary := { b.primary with
        status := b.primary.status &&& ~~~statusActive
        completionWaitsForStop := false } }
  else
    { b with
      primary := { b.primary with
        status := b.primary.status ||| statusActive
        completionWaitsForStop := true } }

structure Completed (D : Type) where
  written : Option (List PrdSpan)
  bus : BusMasterIde
  memory : Memory
  disk : D

def completePrimary (transfer : Transfer) (memory : Memory) (disk : D) :
    Except Slip (Completed D) :=
  let taken := { b with primary := { b.primary with transfer := none } }
  let failed (disk : D) : Completed D :=
    let (bus, disk) := taken.failPrimary port disk
    ⟨none, bus, memory, disk⟩
  match transfer.direction with
  | .deviceToMemory =>
    match port.readDmaPayload disk with
    | (none, disk) => pure (failed disk)
    | (some payload, disk) =>
      if payload.length ≠ transfer.byteLen then pure (failed disk)
      else do
        let memory ← scatterWrite payload transfer.spans 0 memory
        pure ⟨some transfer.spans, taken.retire transfer, memory,
          port.completeDmaRead disk payload.length⟩
  | .memoryToDevice => do
    let payload ← gatherRead memory transfer.spans
    match port.completeDmaWrite disk payload with
    | (false, disk) => pure (failed disk)
    | (true, disk) => pure ⟨none, taken.retire transfer, memory, disk⟩

def advanceMasterTicks (masterTicks : ℕ) (memory : Memory) (disk : D) :
    Except Slip (Completed D) :=
  match b.primary.transfer with
  | none => pure ⟨none, b, memory, disk⟩
  | some transfer =>
    if masterTicks < transfer.ticksRemaining then
      pure ⟨none, { b with
        primary := { b.primary with
          transfer := some { transfer with
            ticksRemaining := transfer.ticksRemaining - masterTicks } } }, memory, disk⟩
    else b.completePrimary port transfer memory disk

def noteIdeIrq (secondary : Bool) : BusMasterIde :=
  if secondary then
    { b with secondary := { b.secondary with status := b.secondary.status ||| statusInterrupt } }
  else { b with primary := { b.primary with status := b.primary.status ||| statusInterrupt } }

def resetPrimary : BusMasterIde := { b with primary := Channel.powerOn }

end BusMasterIde

structure State (D : Type) where
  bus : BusMasterIde
  disk : Option D
  memory : Memory

inductive Event (D : Type) where
  | writeIo (ioPort bytes : ℕ) (value : BitVec 32) (base : ℕ)
  | synchronize (busMasterEnabled : Bool) (prefixTicks : ℕ)
  | advance (masterTicks : ℕ)
  | noteIdeIrq (secondary : Bool)
  | mount (disk : Option D)
  | device (disk : D)
  | store (address : ℕ) (value : UInt8)

variable {D : Type}

def State.step (port : DiskPort D) (s : State D) :
    Event D → Except Slip (Option (List PrdSpan) × State D)
  | .writeIo ioPort bytes value base =>
    if BusMasterIde.ownsIo ioPort bytes base then
      let (bus, disk) := s.bus.writeIo port ioPort bytes value s.disk base
      pure (none, { s with bus, disk })
    else pure (none, s)
  | .synchronize enabled prefixTicks =>
    match s.disk with
    | none => pure (none, s)
    | some disk =>
      let (bus, disk) := s.bus.synchronize port enabled s.memory disk prefixTicks
      pure (none, { s with bus, disk := some disk })
  | .advance masterTicks =>
    match s.disk with
    | none => pure (none, s)
    | some disk => do
      let result ← s.bus.advanceMasterTicks port masterTicks s.memory disk
      pure (result.written, ⟨result.bus, some result.disk, result.memory⟩)
  | .noteIdeIrq secondary => pure (none, { s with bus := s.bus.noteIdeIrq secondary })
  | .mount disk => pure (none, { s with bus := s.bus.resetPrimary, disk })
  | .device disk => pure (none, { s with disk := s.disk.map fun _ => disk })
  | .store address value =>
    pure (none, { s with memory := (s.memory.writeU8 address value).getD s.memory })

end IzarraVM.Bmide
