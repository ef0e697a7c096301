import IzarraVM.LruCache
import IzarraVM.MachineWords
import IzarraVM.StepRuns

/-! The image-backed ATA disk of the primary channel (`ata.rs`): task file, PIO and DMA requests. -/
namespace IzarraVM.Ata

structure Sector where
  bytes : List UInt8
  full : bytes.length = 512
  deriving DecidableEq

def Sector.ofBytes (bytes : List UInt8) : Sector where
  bytes := (bytes ++ List.replicate 512 0).take 512
  full := by
    rw [List.length_take, List.length_append, List.length_replicate]
    exact Nat.min_eq_left (Nat.le_add_left 512 bytes.length)

theorem Sector.ext {s t : Sector} (h : s.bytes = t.bytes) : s = t := by
  cases s
  cases t
  congr

def sectorsOf (image : List UInt8) : List Sector :=
  (List.range ((image.length + 511) / 512)).map fun k => Sector.ofBytes (image.drop (k * 512))

abbrev SectorCache : Type := LruCache ℕ Sector 32768

structure Medium where
  image : List Sector
  cache : SectorCache
  coherent : cache.Coherent (image[·]?)
  deriving DecidableEq

namespace Medium

def new (image : List Sector) (sectorCacheEnabled : Bool) : Medium where
  image := image
  cache := LruCache.empty sectorCacheEnabled
  coherent := LruCache.coherent_empty sectorCacheEnabled _

variable (m : Medium)

variable (lba : ℕ)

def lookedUp : Medium :=
  { m with cache := (m.cache.get lba).2, coherent := m.coherent.get lba }

def filled (served : Sector) (hread : m.image[lba]? = some served) :
    Medium :=
  { m with cache := m.cache.put lba served, coherent := m.coherent.put hread fun _ _ => rfl }

def readLba : Option Sector × Medium :=
  match (m.cache.get lba).1 with
  | some hit => (some hit, m.lookedUp lba)
  | none =>
    match hread : m.image[lba]? with
    | some served => (some served, (m.lookedUp lba).filled lba served hread)
    | none => (none, m.lookedUp lba)

def writeLba (data : List UInt8) : Option Medium :=
  if data.length < 512 then none
  else if hlba : lba < m.image.length then
    some {
      image := m.image.set lba (Sector.ofBytes data)
      cache := m.cache.put lba (Sector.ofBytes data)
      coherent := m.coherent.put (List.getElem?_set_self hlba)
        fun _ hne => List.getElem?_set_ne (Ne.symm hne) }
  else none

@[simp] theorem readLba_fst : (m.readLba lba).1 = m.image[lba]? := by
  unfold readLba
  split
  · rename_i hit h
    exact (m.coherent.get_eq h).symm
  · split
    · rename_i h
      exact h.symm
    · rename_i h
      exact h.symm

@[simp] theorem readLba_image : (m.readLba lba).2.image = m.image := by
  unfold readLba
  split
  · rfl
  · split <;> rfl

theorem writeLba_eq_some {m m' : Medium} {lba : ℕ} {data : List UInt8}
    (h : m.writeLba lba data = some m') : m'.image = m.image.set lba (Sector.ofBytes data) := by
  unfold writeLba at h
  split at h
  · cases h
  · split at h
    · obtain rfl := Option.some.inj h
      rfl
    · cases h

theorem writeLba_isSome {m : Medium} {lba : ℕ} {data : List UInt8} (hlba : lba < m.image.length)
    (hdata : 512 ≤ data.length) : ∃ m', m.writeLba lba data = some m' := by
  simp [writeLba, Nat.not_lt.mpr hdata, hlba]

end Medium

namespace Status

def err : UInt8 := 0x01
def drq : UInt8 := 0x08
def dsc : UInt8 := 0x10
def drdy : UInt8 := 0x40
def bsy : UInt8 := 0x80

end Status

def abrt : UInt8 := 0x04

def heads : ℕ := 16
def sectorsPerTrack : ℕ := 63

def commandLatencyTicks : ℕ := 0

inductive Phase
  | idle
  | dataIn
  | dataOut
  deriving DecidableEq

inductive PendingAction
  | prepareIdentify
  | prepareRead
  | prepareWrite
  | commitWrite
  | completeOk
  | abort
  | initializeParameters (sectors heads : UInt8)
  | setFeatures (feature mode : UInt8)
  | diagnostic
  | checkPower
  | flushCache
  deriving DecidableEq

structure PendingCommand where
  ticksRemaining : ℕ
  action : PendingAction
  deriving DecidableEq

inductive DmaDirection
  | deviceToMemory
  | memoryToDevice
  deriving DecidableEq

inductive DmaMode
  | none
  | multiword (mode : UInt8)
  | ultra (mode : UInt8)
  deriving DecidableEq

def DmaMode.bytesPerSecond : DmaMode → Option ℕ
  | .none => Option.none
  | .multiword 0 => some 4200000
  | .multiword 1 => some 13300000
  | .multiword 2 => some 16700000
  | .ultra 0 => some 16700000
  | .ultra 1 => some 25000000
  | .ultra 2 => some 33300000
  | .multiword _ => Option.none
  | .ultra _ => Option.none

structure DmaRequest where
  direction : DmaDirection
  lba : ℕ
  sectors : ℕ
  bytesPerSecond : ℕ
  deriving DecidableEq

def DmaRequest.byteLen (r : DmaRequest) : ℕ := r.sectors * 512

structure TaskFile where
  features : UInt8
  sectorCount : UInt8
  lbaLow : UInt8
  lbaMid : UInt8
  lbaHigh : UInt8
  driveHead : UInt8
  deriving DecidableEq

namespace TaskFile

variable (t : TaskFile)

def masterSelected : Bool := t.driveHead &&& 0x10 = 0

def lbaMode : Bool := t.driveHead &&& 0x40 ≠ 0

def head : ℕ := (t.driveHead &&& 0x0F).toNat

def cylinder : ℕ := t.lbaMid.toNat + t.lbaHigh.toNat * 256

def linear : ℕ :=
  t.lbaLow.toNat + t.lbaMid.toNat * 2 ^ 8 + t.lbaHigh.toNat * 2 ^ 16 + t.head * 2 ^ 24

def count : ℕ := if t.sectorCount = 0 then 256 else t.sectorCount.toNat

def setAddress (lba : ℕ) : TaskFile :=
  if t.lbaMode then
    { t with
      lbaLow := UInt8.ofNat lba
      lbaMid := UInt8.ofNat (lba / 2 ^ 8)
      lbaHigh := UInt8.ofNat (lba / 2 ^ 16)
      driveHead := (t.driveHead &&& 0xf0) ||| (UInt8.ofNat (lba / 2 ^ 24) &&& 0x0f) }
  else
    let cylinderSize := heads * sectorsPerTrack
    let cylinder := lba / cylinderSize
    let inCylinder := lba % cylinderSize
    let head := inCylinder / sectorsPerTrack
    let sector := inCylinder % sectorsPerTrack + 1
    { t with
      lbaLow := UInt8.ofNat sector
      lbaMid := UInt8.ofNat cylinder
      lbaHigh := UInt8.ofNat (cylinder / 2 ^ 8)
      driveHead := (t.driveHead &&& 0xf0) ||| UInt8.ofNat head }

end TaskFile

/-- "IZARRA-HD-0001" -/
def serialNumber : List ℕ :=
  [0x49, 0x5A, 0x41, 0x52, 0x52, 0x41, 0x2D, 0x48, 0x44, 0x2D, 0x30, 0x30, 0x30, 0x31]

def firmwareRevision : List ℕ := [0x31, 0x2E, 0x30, 0x20]

/-- "Izarra Hard Disk" -/
def modelNumber : List ℕ :=
  [0x49, 0x7A, 0x61, 0x72, 0x72, 0x61, 0x20, 0x48, 0x61, 0x72, 0x64, 0x20, 0x44, 0x69, 0x73, 0x6B]

def putString (words : List ℕ) (start len : ℕ) (text : List ℕ) : List ℕ :=
  (List.range len).foldl
    (fun ws i => ws.set (start + i) (text.getD (i * 2) 0x20 * 256 + text.getD (i * 2 + 1) 0x20))
    words

def identifyBlock (cylinders heads sectors totalLba : ℕ) (dmaMode : DmaMode) : List UInt8 :=
  let capacity := min (min (cylinders * heads) (2 ^ 32 - 1) * sectors) (2 ^ 32 - 1)
  let words := (List.replicate 256 0)
    |>.set 0 0x0040
    |>.set 1 (min cylinders 0xFFFF)
    |>.set 3 heads
    |>.set 6 sectors
    |>.set 49 0x0300
    |>.set 53 0x0005
    |>.set 54 (min cylinders 0xFFFF)
    |>.set 55 heads
    |>.set 56 sectors
    |>.set 57 (capacity % 2 ^ 16)
    |>.set 58 (capacity / 2 ^ 16)
    |>.set 60 (totalLba % 2 ^ 16)
    |>.set 61 (totalLba / 2 ^ 16)
    |>.set 63 0x0007
    |>.set 80 0x0010
    |>.set 88 0x0007
  let words := match dmaMode with
    | .multiword mode => words.set 63 (0x0007 ||| 2 ^ (8 + mode.toNat))
    | .ultra mode => words.set 88 (0x0007 ||| 2 ^ (8 + mode.toNat))
    | .none => words
  let words := putString words 10 10 serialNumber
  let words := putString words 23 4 firmwareRevision
  let words := putString words 27 20 modelNumber
  words.flatMap fun w => [UInt8.ofNat w, UInt8.ofNat (w / 256)]

structure AtaDisk where
  medium : Medium
  cylinders : ℕ
  dirty : Bool
  task : TaskFile
  status : UInt8
  error : UInt8
  logicalSectors : UInt8
  logicalHeads : UInt8
  interruptsDisabled : Bool
  phase : Phase
  buffer : List UInt8
  bufferPos : ℕ
  pioLba : ℕ
  pioSectorsRemaining : ℕ
  pendingCommand : Option PendingCommand
  irqPending : Bool
  dmaRequest : Option DmaRequest
  dmaMode : DmaMode
  lastAccessBytes : ℕ
  deriving DecidableEq

namespace AtaDisk

def new (image : List UInt8) (sectorCacheEnabled : Bool) : AtaDisk where
  medium := Medium.new (sectorsOf image) sectorCacheEnabled
  cylinders := max ((sectorsOf image).length % 2 ^ 32 / (heads * sectorsPerTrack)) 1
  dirty := false
  task := ⟨0, 1, 1, 0, 0, 0⟩
  status := Status.drdy ||| Status.dsc
  error := 0
  logicalSectors := UInt8.ofNat sectorsPerTrack
  logicalHeads := UInt8.ofNat heads
  interruptsDisabled := false
  phase := .idle
  buffer := []
  bufferPos := 0
  pioLba := 0
  pioSectorsRemaining := 0
  pendingCommand := none
  irqPending := false
  dmaRequest := none
  dmaMode := .ultra 2
  lastAccessBytes := 0

def totalSectors (d : AtaDisk) : ℕ := min (d.medium.image.length % 2 ^ 32) (2 ^ 28 - 1)

def taskFileChsToLba (d : AtaDisk) (cyl head sector : ℕ) : Option ℕ :=
  let heads := d.logicalHeads.toNat
  let sectors := d.logicalSectors.toNat
  if heads = 0 ∨ sectors = 0 ∨ heads ≤ head ∨ sector = 0 ∨ sectors < sector then none
  else do
    let track ← checkedAdd32 (← checkedMul32 cyl heads) head
    let lba ← checkedAdd32 (← checkedMul32 track sectors) (sector - 1)
    if lba < d.totalSectors then some lba else none

def commandLba (d : AtaDisk) : Option (ℕ × ℕ) :=
  if d.task.lbaMode then some (d.task.linear, d.task.count)
  else do
    let lba ← d.taskFileChsToLba d.task.cylinder d.task.head d.task.lbaLow.toNat
    some (lba, d.task.count)

def readLba (d : AtaDisk) (lba : ℕ) : Option Sector × AtaDisk :=
  let read := d.medium.readLba lba
  (read.1, { d with medium := read.2 })

def writeLba (d : AtaDisk) (lba : ℕ) (data : List UInt8) : Option AtaDisk :=
  (d.medium.writeLba lba data).map fun medium => { d with medium := medium, dirty := true }

def raiseIrq (d : AtaDisk) : AtaDisk := { d with irqPending := true }

def takeIrq (d : AtaDisk) : Bool × AtaDisk :=
  (d.irqPending && !d.interruptsDisabled, { d with irqPending := false })

def takeAccessBytes (d : AtaDisk) : ℕ × AtaDisk :=
  (d.lastAccessBytes, { d with lastAccessBytes := 0 })

def scheduleAt (d : AtaDisk) (action : PendingAction) (ticks prefixTicks : ℕ) : AtaDisk :=
  { d with
    phase := .idle
    status := Status.bsy
    error := 0
    irqPending := false
    pendingCommand := some ⟨saturatingAdd64 prefixTicks (max ticks 1), action⟩ }

def completeOk (d : AtaDisk) : AtaDisk :=
  raiseIrq { d with
    phase := .idle
    dmaRequest := none
    pendingCommand := none
    status := Status.drdy ||| Status.dsc
    error := 0 }

def abort (d : AtaDisk) : AtaDisk :=
  raiseIrq { d with
    phase := .idle
    dmaRequest := none
    pendingCommand := none
    buffer := []
    bufferPos := 0
    pioSectorsRemaining := 0
    status := Status.drdy ||| Status.err
    error := abrt }

def softReset (d : AtaDisk) : AtaDisk :=
  { d with
    phase := .idle
    dmaRequest := none
    pendingCommand := none
    buffer := []
    bufferPos := 0
    pioSectorsRemaining := 0
    status := Status.drdy ||| Status.dsc
    error := 0x01
    task := { d.task with sectorCount := 0x01, lbaLow := 0x01, lbaMid := 0x00, lbaHigh := 0x00 }
    irqPending := false }

def openBlock (d : AtaDisk) (phase : Phase) (buffer : List UInt8) : AtaDisk :=
  { d with
    buffer := buffer
    bufferPos := 0
    phase := phase
    status := Status.drdy ||| Status.drq ||| Status.dsc
    error := 0 }

def prepareIdentify (d : AtaDisk) : AtaDisk :=
  raiseIrq (d.openBlock .dataIn
    (identifyBlock d.cylinders heads sectorsPerTrack d.totalSectors d.dmaMode))

def advancePioTaskFile (d : AtaDisk) : AtaDisk :=
  let lba := saturatingAdd32 d.pioLba 1
  { d with
    pioLba := lba
    task := { d.task with sectorCount := d.task.sectorCount - 1 }.setAddress lba }

def advanceDmaTaskFile (d : AtaDisk) (request : DmaRequest) : AtaDisk :=
  { d with
    task := { d.task with
      sectorCount := d.task.sectorCount - UInt8.ofNat request.sectors }.setAddress
        (saturatingAdd32 request.lba request.sectors) }

def beginPio (d : AtaDisk) (action : PendingAction) (prefixTicks : ℕ) : AtaDisk :=
  match d.commandLba with
  | none => d.scheduleAt .abort commandLatencyTicks prefixTicks
  | some (lba, count) =>
    if saturatingAdd32 lba count > d.totalSectors then
      d.scheduleAt .abort commandLatencyTicks prefixTicks
    else
      { d with pioLba := lba, pioSectorsRemaining := count, lastAccessBytes := 0 }.scheduleAt
        action commandLatencyTicks prefixTicks

def readSectors (d : AtaDisk) (prefixTicks : ℕ) : AtaDisk := d.beginPio .prepareRead prefixTicks

def writeSectors (d : AtaDisk) (prefixTicks : ℕ) : AtaDisk := d.beginPio .prepareWrite prefixTicks

def prepareReadSector (d : AtaDisk) : AtaDisk :=
  match d.readLba d.pioLba with
  | (none, d) => d.abort
  | (some sector, d) =>
    raiseIrq ({ d with lastAccessBytes := d.lastAccessBytes + 512 }.openBlock .dataIn sector.bytes)

def prepareWriteSector (d : AtaDisk) (raise : Bool) : AtaDisk :=
  let opened := d.openBlock .dataOut (List.replicate 512 0)
  if raise then opened.raiseIrq else opened

def beginDma (d : AtaDisk) (direction : DmaDirection) : AtaDisk :=
  match d.dmaMode.bytesPerSecond, d.commandLba with
  | some bytesPerSecond, some (lba, sectors) =>
    if saturatingAdd32 lba sectors > d.totalSectors then d.abort
    else
      { d with
        phase := .idle
        buffer := []
        bufferPos := 0
        error := 0
        status := Status.bsy
        irqPending := false
        dmaRequest := some ⟨direction, lba, sectors, bytesPerSecond⟩ }
  | _, _ => d.abort

def applySetFeatures (d : AtaDisk) (feature mode : UInt8) : AtaDisk :=
  if feature ≠ 0x03 then d.completeOk
  else if mode = 0x00 ∨ mode = 0x01 ∨ 0x08 ≤ mode ∧ mode ≤ 0x0C then
    { d with dmaMode := .none }.completeOk
  else if 0x20 ≤ mode ∧ mode ≤ 0x22 then { d with dmaMode := .multiword (mode - 0x20) }.completeOk
  else if 0x40 ≤ mode ∧ mode ≤ 0x42 then { d with dmaMode := .ultra (mode - 0x40) }.completeOk
  else d.abort

def countSector (d : AtaDisk) : AtaDisk :=
  if 0 < d.pioSectorsRemaining then
    { d with pioSectorsRemaining := d.pioSectorsRemaining - 1 }.advancePioTaskFile
  else d

def sectorStored (d : AtaDisk) : AtaDisk :=
  if 0 < d.pioSectorsRemaining then d.prepareWriteSector true
  else raiseIrq { d with phase := .idle, status := Status.drdy ||| Status.dsc, error := 0 }

def commitWriteSector (d : AtaDisk) : AtaDisk :=
  match { d with buffer := [], bufferPos := 0 }.writeLba d.pioLba d.buffer with
  | none => { d with buffer := [], bufferPos := 0 }.abort
  | some written =>
    { written with lastAccessBytes := written.lastAccessBytes + 512 }.countSector.sectorStored

def finishPending (d : AtaDisk) : PendingAction → AtaDisk
  | .prepareIdentify => d.prepareIdentify
  | .prepareRead => d.prepareReadSector
  | .prepareWrite => d.prepareWriteSector false
  | .commitWrite => d.commitWriteSector
  | .completeOk => d.completeOk
  | .abort => d.abort
  | .initializeParameters sectors heads =>
    { d with logicalSectors := sectors, logicalHeads := heads }.completeOk
  | .setFeatures feature mode => d.applySetFeatures feature mode
  | .diagnostic => raiseIrq { d with error := 0x01, status := Status.drdy ||| Status.dsc }
  | .checkPower => { d with task := { d.task with sectorCount := 0xFF } }.completeOk
  | .flushCache => d.completeOk

def advanceMasterTicks (d : AtaDisk) (ticks : ℕ) : AtaDisk :=
  match d.pendingCommand with
  | none => d
  | some pending =>
    if ticks < pending.ticksRemaining then
      { d with
        pendingCommand := some ⟨pending.ticksRemaining - ticks, pending.action⟩ }
    else { d with pendingCommand := none }.finishPending pending.action

inductive Request
  | schedule (action : PendingAction)
  | readSectors
  | writeSectors
  | dma (direction : DmaDirection)

def request (t : TaskFile) (command : UInt8) : Request :=
  if command = 0xEC then .schedule .prepareIdentify
  else if command = 0x20 ∨ command = 0x21 then .readSectors
  else if command = 0x30 ∨ command = 0x31 then .writeSectors
  else if command = 0xC8 ∨ command = 0xC9 then .dma .deviceToMemory
  else if command = 0xCA ∨ command = 0xCB then .dma .memoryToDevice
  else if command = 0xC4 then .readSectors
  else if command = 0xC5 then .writeSectors
  else if 0x10 ≤ command ∧ command ≤ 0x1F then .schedule .completeOk
  else if 0x70 ≤ command ∧ command ≤ 0x7F then .schedule .completeOk
  else if command = 0x91 then
    .schedule (.initializeParameters t.sectorCount ((t.driveHead &&& 0x0F) + 1))
  else if command = 0xEF then .schedule (.setFeatures t.features t.sectorCount)
  else if command = 0x90 then .schedule .diagnostic
  else if command = 0xE5 then .schedule .checkPower
  else if command = 0xE2 ∨ command = 0xE3 then .schedule .completeOk
  else if command = 0xE7 then .schedule .flushCache
  else .schedule .abort

def serve (d : AtaDisk) (prefixTicks : ℕ) : Request → AtaDisk
  | .schedule action => d.scheduleAt action commandLatencyTicks prefixTicks
  | .readSectors => d.readSectors prefixTicks
  | .writeSectors => d.writeSectors prefixTicks
  | .dma direction => d.beginDma direction

def writeCommand (d : AtaDisk) (command : UInt8) (prefixTicks : ℕ) : AtaDisk :=
  if d.dmaRequest.isSome ∨ d.pendingCommand.isSome ∨ d.phase ≠ .idle then d
  else if ¬ d.task.masterSelected then d.scheduleAt .abort commandLatencyTicks prefixTicks
  else d.serve prefixTicks (request d.task command)

def blockDrained (d : AtaDisk) (prefixTicks : ℕ) : AtaDisk :=
  if 0 < d.pioSectorsRemaining then d.scheduleAt .prepareRead commandLatencyTicks prefixTicks
  else { d with status := Status.drdy ||| Status.dsc }

def readDataByte (d : AtaDisk) (prefixTicks : ℕ) : UInt8 × AtaDisk :=
  if d.phase ≠ .dataIn then (0, d)
  else (d.buffer.getD d.bufferPos 0,
    if d.bufferPos + 1 < d.buffer.length then { d with bufferPos := d.bufferPos + 1 }
    else
      { d with phase := .idle, buffer := [], bufferPos := 0 }.countSector.blockDrained prefixTicks)

def storeDataByte (d : AtaDisk) (value : UInt8) : AtaDisk :=
  if d.bufferPos < d.buffer.length then
    { d with buffer := d.buffer.set d.bufferPos value, bufferPos := d.bufferPos + 1 }
  else d

def blockFilled (d : AtaDisk) (prefixTicks : ℕ) : AtaDisk :=
  if d.bufferPos < d.buffer.length then d
  else { d with phase := .idle }.scheduleAt .commitWrite commandLatencyTicks prefixTicks

def writeDataByte (d : AtaDisk) (value : UInt8) (prefixTicks : ℕ) : AtaDisk :=
  if d.phase ≠ .dataOut then d else (d.storeDataByte value).blockFilled prefixTicks

def primaryCmdBase : ℕ := 0x1F0
def primaryCtrl : ℕ := 0x3F6

def readPortAt (d : AtaDisk) (port prefixTicks : ℕ) : Option UInt8 × AtaDisk :=
  if port = primaryCtrl then (some d.status, d)
  else if port < primaryCmdBase ∨ primaryCmdBase + 7 < port then (none, d)
  else match port - primaryCmdBase with
    | 0 => ((d.readDataByte prefixTicks).1, (d.readDataByte prefixTicks).2)
    | 1 => (d.error, d)
    | 2 => (d.task.sectorCount, d)
    | 3 => (d.task.lbaLow, d)
    | 4 => (d.task.lbaMid, d)
    | 5 => (d.task.lbaHigh, d)
    | 6 => (d.task.driveHead, d)
    | 7 => (d.status, { d with irqPending := false })
    | _ => (some 0xFF, d)

def writePortAt (d : AtaDisk) (port : ℕ) (value : UInt8) (prefixTicks : ℕ) : AtaDisk :=
  if port = primaryCtrl then
    let controlled := { d with interruptsDisabled := decide (value &&& 0x02 ≠ 0) }
    if value &&& 0x04 ≠ 0 then controlled.softReset else controlled
  else if port < primaryCmdBase ∨ primaryCmdBase + 7 < port then d
  else if d.status &&& Status.bsy ≠ 0 ∧ port - primaryCmdBase ≠ 0 then d
  else match port - primaryCmdBase with
    | 0 => d.writeDataByte value prefixTicks
    | 1 => { d with task := { d.task with features := value } }
    | 2 => { d with task := { d.task with sectorCount := value } }
    | 3 => { d with task := { d.task with lbaLow := value } }
    | 4 => { d with task := { d.task with lbaMid := value } }
    | 5 => { d with task := { d.task with lbaHigh := value } }
    | 6 => { d with task := { d.task with driveHead := value } }
    | 7 => d.writeCommand value prefixTicks
    | _ => d

def readRange (d : AtaDisk) (lba : ℕ) : ℕ → Option (List UInt8) × AtaDisk
  | 0 => (some [], d)
  | n + 1 =>
    match d.readLba lba with
    | (none, d) => (none, d)
    | (some sector, d) =>
      let rest := d.readRange (lba + 1) n
      (rest.1.map (sector.bytes ++ ·), rest.2)

def readDmaPayload (d : AtaDisk) : Option (List UInt8) × AtaDisk :=
  match d.dmaRequest with
  | none => (none, d)
  | some request =>
    if request.direction ≠ .deviceToMemory then (none, d)
    else d.readRange request.lba request.sectors

def completeDmaRead (d : AtaDisk) (bytes : ℕ) : AtaDisk :=
  match d.dmaRequest with
  | none => d
  | some request =>
    if request.direction ≠ .deviceToMemory ∨ bytes ≠ request.byteLen then d.abort
    else ({ d with lastAccessBytes := bytes }.advanceDmaTaskFile request).completeOk

def writeRange (d : AtaDisk) (lba : ℕ) (data : List UInt8) : ℕ → Bool × AtaDisk
  | 0 => (true, d)
  | n + 1 =>
    match d.writeLba lba (data.take 512) with
    | none => (false, d)
    | some d => d.writeRange (lba + 1) (data.drop 512) n

def completeDmaWrite (d : AtaDisk) (data : List UInt8) : Bool × AtaDisk :=
  match d.dmaRequest with
  | none => (false, d)
  | some request =>
    if request.direction ≠ .memoryToDevice ∨ data.length ≠ request.byteLen then (false, d.abort)
    else
      match d.writeRange request.lba data request.sectors with
      | (false, d) => (false, d.abort)
      | (true, d) =>
        (true, ({ d with lastAccessBytes := data.length }.advanceDmaTaskFile request).completeOk)

def abortDma (d : AtaDisk) : AtaDisk := if d.dmaRequest.isSome then d.abort else d

end AtaDisk

inductive Event
  | readPort (port prefixTicks : ℕ)
  | writePort (port : ℕ) (value : UInt8) (prefixTicks : ℕ)
  | advance (ticks : ℕ)
  | takeIrq
  | takeAccessBytes
  | dmaPayload
  | dmaReadDone (bytes : ℕ)
  | dmaWriteDone (data : List UInt8)
  | dmaAbort
  | serviceRead (lba : ℕ)
  | serviceWrite (lba : ℕ) (data : List UInt8)
  deriving DecidableEq

def AtaDisk.step (d : AtaDisk) : Event → AtaDisk
  | .readPort port prefixTicks => (d.readPortAt port prefixTicks).2
  | .writePort port value prefixTicks => d.writePortAt port value prefixTicks
  | .advance ticks => d.advanceMasterTicks ticks
  | .takeIrq => d.takeIrq.2
  | .takeAccessBytes => d.takeAccessBytes.2
  | .dmaPayload => d.readDmaPayload.2
  | .dmaReadDone bytes => d.completeDmaRead bytes
  | .dmaWriteDone data => (d.completeDmaWrite data).2
  | .dmaAbort => d.abortDma
  | .serviceRead lba => (d.readLba lba).2
  | .serviceWrite lba data => (d.writeLba lba data).getD d

end IzarraVM.Ata
