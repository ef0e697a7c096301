import Mathlib

/-! The ATAPI command interpreter of the CD-ROM drive (`atapi.rs`, `cdimage.rs`). -/
namespace IzarraVM.Ide

structure DataSector where
  bytes : List UInt8
  full : bytes.length = 2048

inductive TrackMode
  | mode1_2048
  | mode1_2352
  | mode1_2448
  | mode2_2048
  | mode2_2336
  | mode2_2352
  | audio
  | audioCdg
  deriving DecidableEq

namespace TrackMode

def rawSize : TrackMode → ℕ
  | mode1_2048 | mode2_2048 => 2048
  | mode2_2336 => 2336
  | mode1_2352 | mode2_2352 | audio => 2352
  | mode1_2448 | audioCdg => 2448

def isAudio : TrackMode → Bool
  | audio | audioCdg => true
  | _ => false

def payloadOffset : TrackMode → Option ℕ
  | mode1_2048 | mode2_2048 => some 0
  | mode2_2336 => some 8
  | mode1_2352 | mode1_2448 => some 16
  | mode2_2352 => some 24
  | audio | audioCdg => none

def submodeOffset : TrackMode → Option ℕ
  | mode2_2352 => some 18
  | mode2_2336 => some 2
  | _ => none

end TrackMode

structure Track where
  number : UInt8
  mode : TrackMode
  startLba : ℕ
  sectors : ℕ
  imageOffset : ℕ

def Track.endLba (t : Track) : ℕ := t.startLba + t.sectors

inductive Backing
  | bytes (bytes : List UInt8)
  | folder (read : ℕ → DataSector)

structure CdImage where
  backing : Backing
  tracks : List Track
  totalSectors : ℕ

namespace CdImage

def trackAtLba (image : CdImage) (lba : ℕ) : Option Track :=
  image.tracks.find? fun t => t.startLba ≤ lba ∧ lba < t.endLba

def trackCount (image : CdImage) : UInt8 := UInt8.ofNat image.tracks.length

def payload (bytes : List UInt8) (offset : ℕ) : Option DataSector :=
  if h : ((bytes.drop offset).take 2048).length = 2048 then some ⟨_, h⟩ else none

def readDataSector (image : CdImage) (lba : ℕ) : Option DataSector := do
  let track ← image.trackAtLba lba
  let payloadOffset ← track.mode.payloadOffset
  match image.backing with
  | .bytes bytes =>
    let frameOff := track.imageOffset + (lba - track.startLba) * track.mode.rawSize
    match track.mode.submodeOffset with
    | some submode =>
      let flags ← bytes[frameOff + submode]?
      if flags &&& 0x20 ≠ 0 then none else payload bytes (frameOff + payloadOffset)
    | none => payload bytes (frameOff + payloadOffset)
  | .folder read => some (read lba)

end CdImage

def lbaToMsf (lba : ℕ) : UInt8 × UInt8 × UInt8 :=
  let total := lba + 150
  (UInt8.ofNat (total / (60 * 75)), UInt8.ofNat (total / 75 % 60), UInt8.ofNat (total % 75))

def msfToLba (m s f : UInt8) : ℕ := (m.toNat * 60 + s.toNat) * 75 + f.toNat - 150

structure Cdb where
  bytes : List UInt8
  full : bytes.length = 12
  deriving DecidableEq

namespace Cdb

variable (cdb : Cdb)

def byte (i : ℕ) : UInt8 := cdb.bytes.getD i 0

def opcode : UInt8 := cdb.byte 0

def be16 (i : ℕ) : ℕ := (cdb.byte i).toNat * 2 ^ 8 + (cdb.byte (i + 1)).toNat
def be24 (i : ℕ) : ℕ := (cdb.byte i).toNat * 2 ^ 16 + cdb.be16 (i + 1)
def be32 (i : ℕ) : ℕ := (cdb.byte i).toNat * 2 ^ 24 + cdb.be24 (i + 1)

end Cdb

def toBe16 (n : ℕ) : List UInt8 := [UInt8.ofNat (n / 2 ^ 8), UInt8.ofNat n]

def toBe32 (n : ℕ) : List UInt8 :=
  [UInt8.ofNat (n / 2 ^ 24), UInt8.ofNat (n / 2 ^ 16), UInt8.ofNat (n / 2 ^ 8), UInt8.ofNat n]

inductive CmdResult
  | data (buf : List UInt8)
  | error

namespace SenseKey

def noSense : UInt8 := 0x00
def notReady : UInt8 := 0x02
def illegalRequest : UInt8 := 0x05
def unitAttention : UInt8 := 0x06

end SenseKey

namespace Asc

def noAdditional : UInt8 × UInt8 := (0x00, 0x00)
def notReadyNoMedium : UInt8 × UInt8 := (0x3A, 0x00)
def invalidCommand : UInt8 × UInt8 := (0x20, 0x00)
def invalidFieldInCdb : UInt8 × UInt8 := (0x24, 0x00)
def lbaOutOfRange : UInt8 × UInt8 := (0x21, 0x00)
def mediumMayHaveChanged : UInt8 × UInt8 := (0x28, 0x00)
def mediumRemovalPrevented : UInt8 × UInt8 := (0x53, 0x02)

end Asc

namespace InterruptReason

-- C/D in bit 0 and I/O in bit 1, on the sector-count register

def dataIn : UInt8 := 0x02
def commandComplete : UInt8 := 0x03

end InterruptReason

structure Playback where
  playing : Bool
  paused : Bool
  currentLba : ℕ
  endLba : ℕ
  deriving DecidableEq

/-- What the log of the drive holds of a command that failed, with the arguments of its failure, and
of the other events that touch the sense data. -/
inductive Entry where
  | fault (key : UInt8) (code : UInt8 × UInt8) (address : Option ℕ)
  | sensed
  | inserted
  | ejected

structure AtapiDevice where
  image : Option CdImage
  play : Playback
  senseKey : UInt8
  asc : UInt8 × UInt8
  senseInformation : Option ℕ
  mediaChanged : Bool
  preventRemoval : Bool
  started : Bool
  interruptReason : UInt8
  audioVolume : UInt8 × UInt8
  log : List Entry

namespace AtapiDevice

def new : AtapiDevice where
  image := none
  play := ⟨false, false, 0, 0⟩
  senseKey := 0
  asc := (0, 0)
  senseInformation := none
  mediaChanged := false
  preventRemoval := false
  started := false
  interruptReason := 0
  audioVolume := (0xFF, 0xFF)
  log := []

variable (d : AtapiDevice)

def record (entry : Entry) : AtapiDevice := { d with log := entry :: d.log }

def setSense (key : UInt8) (code : UInt8 × UInt8) : AtapiDevice :=
  { d with senseKey := key, asc := code }

def insert (image : CdImage) : AtapiDevice :=
  { d with
    image := some image
    mediaChanged := true
    started := false
    play := ⟨false, false, 0, 0⟩ }.setSense SenseKey.unitAttention Asc.mediumMayHaveChanged
    |>.record .inserted

def eject : AtapiDevice :=
  { d with
    image := none
    mediaChanged := true
    started := false
    preventRemoval := false
    play := ⟨false, false, 0, 0⟩ }.record .ejected

def fail (key : UInt8) (code : UInt8 × UInt8) : CmdResult × AtapiDevice :=
  (.error, (d.setSense key code).record (.fault key code none))

def failAtLba (key : UInt8) (code : UInt8 × UInt8) (lba : ℕ) :
    CmdResult × AtapiDevice :=
  (.error, ({ d with senseInformation := some lba }.setSense key code).record
    (.fault key code (some lba)))

def setPlayRange (start last : ℕ) : AtapiDevice :=
  { d with play := ⟨decide (start < last), false, start, last⟩ }

def stopPlayback : AtapiDevice :=
  { d with play := { d.play with playing := false, paused := false } }

def interruptAudioForHeadMovement : AtapiDevice :=
  if d.play.playing || d.play.paused then d.stopPlayback else d

def truncate (buf : List UInt8) (alloc : ℕ) : CmdResult := .data (buf.take alloc)

def putAddr (lba : ℕ) (msf : Bool) : List UInt8 :=
  if msf then
    let (m, s, f) := lbaToMsf lba
    [0, m, s, f]
  else toBe32 lba

def putRelativeAddr (frames : ℕ) (msf : Bool) : List UInt8 :=
  if msf then
    [0, UInt8.ofNat (frames / (75 * 60)), UInt8.ofNat (frames / 75 % 60), UInt8.ofNat (frames % 75)]
  else toBe32 frames

def trackControl (isAudio : Bool) : UInt8 := if isAudio then 0x10 else 0x14

def tocDescriptor (track control : UInt8) (lba : ℕ) (msf : Bool) : List UInt8 :=
  [0, control, track, 0] ++ putAddr lba msf

def writeAscii (width : ℕ) (text : List UInt8) : List UInt8 :=
  (text ++ List.replicate width 0x20).take width

def serial : List UInt8 :=
  [0x49, 0x5A, 0x41, 0x52, 0x52, 0x41, 0x2D, 0x43, 0x44, 0x2D, 0x30, 0x30, 0x30, 0x31]

def testUnitReady : CmdResult × AtapiDevice :=
  if d.image.isNone then d.fail SenseKey.notReady Asc.notReadyNoMedium
  else if d.mediaChanged then
    { d with mediaChanged := false }.fail SenseKey.unitAttention Asc.mediumMayHaveChanged
  else (.data [], d)

variable (cdb : Cdb)

def requestSense : CmdResult × AtapiDevice :=
  let head : UInt8 := if d.senseInformation.isSome then 0x70 ||| 0x80 else 0x70
  let buf := [head, 0, d.senseKey &&& 0x0F] ++ toBe32 (d.senseInformation.getD 0) ++
    [10, 0, 0, 0, 0, d.asc.1, d.asc.2, 0, 0, 0, 0]
  (truncate buf (cdb.byte 4).toNat,
    ({ d with senseInformation := none }.setSense SenseKey.noSense Asc.noAdditional).record .sensed)

def inquiryVpd (page : UInt8) (alloc : ℕ) : CmdResult × AtapiDevice :=
  if page = 0x00 then (truncate [0x05, 0x00, 0, 3, 0x00, 0x80, 0x83] alloc, d)
  else if page = 0x80 then
    (truncate ([0x05, 0x80, 0, UInt8.ofNat serial.length] ++ serial) alloc, d)
  else if page = 0x83 then
    let desc := [0x02, 0, 0, UInt8.ofNat serial.length] ++ serial
    (truncate ([0x05, 0x83] ++ toBe16 desc.length ++ desc) alloc, d)
  else d.fail SenseKey.illegalRequest Asc.invalidFieldInCdb

def inquiry : CmdResult × AtapiDevice :=
  let alloc := (cdb.byte 4).toNat
  if cdb.byte 1 &&& 0x01 ≠ 0 then d.inquiryVpd (cdb.byte 2) alloc
  else if cdb.byte 2 ≠ 0 then d.fail SenseKey.illegalRequest Asc.invalidFieldInCdb
  else
    -- "Izarra", "CD-ROM 12X", "1.0"
    (truncate ([0x05, 0x80, 0x00, 0x21, 31, 0, 0, 0] ++
      writeAscii 8 [0x49, 0x7A, 0x61, 0x72, 0x72, 0x61] ++
      writeAscii 16 [0x43, 0x44, 0x2D, 0x52, 0x4F, 0x4D, 0x20, 0x31, 0x32, 0x58] ++
      writeAscii 4 [0x31, 0x2E, 0x30]) alloc, d)

def preventAllowRemoval : CmdResult × AtapiDevice :=
  let prevent := decide (cdb.byte 4 &&& 0x01 ≠ 0)
  if prevent && d.image.isNone then d.fail SenseKey.notReady Asc.notReadyNoMedium
  else (.data [], { d with preventRemoval := prevent })

def startStopUnit : CmdResult × AtapiDevice :=
  let loej := decide (cdb.byte 4 &&& 0x02 ≠ 0)
  let start := decide (cdb.byte 4 &&& 0x01 ≠ 0)
  if loej && !start then
    if d.preventRemoval then d.fail SenseKey.notReady Asc.mediumRemovalPrevented
    else (.data [], d.eject)
  else if loej && start then (.data [], { d with started := true })
  else (.data [], { d with started := start })

def readCapacity : CmdResult × AtapiDevice :=
  match d.image with
  | none => d.fail SenseKey.notReady Asc.notReadyNoMedium
  | some image => (.data (toBe32 (image.totalSectors - 1) ++ toBe32 2048), d)

def readRun (image : CdImage) (lba : ℕ) : ℕ → Option (List UInt8)
  | 0 => some []
  | count + 1 => do
    let sector ← image.readDataSector lba
    let rest ← readRun image (lba + 1) count
    some (sector.bytes ++ rest)

def readSectors (lba count : ℕ) : CmdResult × AtapiDevice :=
  match d.image with
  | none => d.fail SenseKey.notReady Asc.notReadyNoMedium
  | some image =>
    if count = 0 then (.data [], d)
    else if min (lba + count) (2 ^ 32 - 1) > image.totalSectors then
      d.failAtLba SenseKey.illegalRequest Asc.lbaOutOfRange lba
    else match readRun image lba count with
      | none => d.fail SenseKey.illegalRequest Asc.invalidFieldInCdb
      | some buf => (.data buf, d.interruptAudioForHeadMovement)

def read10 : CmdResult × AtapiDevice :=
  d.readSectors (cdb.be32 2) (cdb.be16 7)

def read12 : CmdResult × AtapiDevice :=
  d.readSectors (cdb.be32 2) (cdb.be32 6)

def readCd : CmdResult × AtapiDevice :=
  let expectedType := (cdb.byte 1).toNat / 32
  let lba := cdb.be32 2
  let count := cdb.be24 6
  match d.image with
  | none => d.fail SenseKey.notReady Asc.notReadyNoMedium
  | some image =>
    if count = 0 ∨ cdb.byte 9 &&& 0x10 = 0 then (.data [], d)
    else if min (lba + count) (2 ^ 32 - 1) > image.totalSectors then
      d.failAtLba SenseKey.illegalRequest Asc.lbaOutOfRange lba
    else
      let isAudio := (image.trackAtLba lba).map (·.mode.isAudio)
      if expectedType = 1 ∧ isAudio = some false ∨
          2 ≤ expectedType ∧ expectedType ≤ 5 ∧ isAudio = some true then
        d.fail SenseKey.illegalRequest Asc.invalidFieldInCdb
      else d.readSectors lba count

def seek : CmdResult × AtapiDevice :=
  match d.image with
  | none => d.fail SenseKey.notReady Asc.notReadyNoMedium
  | some image =>
    if image.totalSectors ≤ cdb.be32 2 then
      d.failAtLba SenseKey.illegalRequest Asc.lbaOutOfRange (cdb.be32 2)
    else (.data [], d.interruptAudioForHeadMovement)

def readHeader : CmdResult × AtapiDevice :=
  let lba := cdb.be32 2
  match d.image with
  | none => d.fail SenseKey.notReady Asc.notReadyNoMedium
  | some image =>
    if image.totalSectors ≤ lba then
      d.failAtLba SenseKey.illegalRequest Asc.lbaOutOfRange lba
    else
      let dataMode : UInt8 := match image.trackAtLba lba with
        | some t => if t.mode.isAudio then 0x00 else 0x01
        | none => 0x00
      (truncate ([dataMode, 0, 0, 0] ++ putAddr lba (decide (cdb.byte 1 &&& 0x02 ≠ 0)))
        (cdb.be16 7), d)

def readToc : CmdResult × AtapiDevice :=
  let msf := decide (cdb.byte 1 &&& 0x02 ≠ 0)
  let startTrack := cdb.byte 6
  let alloc := cdb.be16 7
  match d.image with
  | none => d.fail SenseKey.notReady Asc.notReadyNoMedium
  | some image =>
    if cdb.byte 2 &&& 0x0F ≠ 0 then (truncate (toBe16 2 ++ [1, image.trackCount]) alloc, d)
    else
      let first := (image.tracks.head?.map (·.number)).getD 1
      let last := (image.tracks.getLast?.map (·.number)).getD 1
      let body := (image.tracks.filter fun t => startTrack ≤ t.number).flatMap (fun t =>
          tocDescriptor t.number (trackControl t.mode.isAudio) t.startLba msf) ++
        (if startTrack ≤ 0xAA then tocDescriptor 0xAA 0x14 image.totalSectors msf else [])
      (truncate (toBe16 (body.length + 2) ++ [first, last] ++ body) alloc, d)

def capsPage2a : List UInt8 :=
  [0x2A, 20, 0x07, 0, 0x71, 0x03, 0, 0] ++ toBe16 1800 ++ [0, 0, 0, 0] ++ toBe16 1800 ++
    [0, 0, 0, 0, 0, 0]

def audioPage0e (volume : UInt8 × UInt8) : List UInt8 :=
  [0x0E, 14, 0, 0, 0, 0, 0, 0, 0x01, volume.1, 0x02, volume.2, 0, 0, 0, 0]

def modeSense10 : CmdResult × AtapiDevice :=
  let page := cdb.byte 2 &&& 0x3F
  let reply := fun pageBytes : List UInt8 =>
    (truncate (toBe16 (pageBytes.length + 6) ++ [0x05, 0, 0, 0, 0, 0] ++ pageBytes) (cdb.be16 7), d)
  if page = 0x2A then reply capsPage2a
  else if page = 0x0E then reply (audioPage0e d.audioVolume)
  else if page = 0x3F then reply (audioPage0e d.audioVolume ++ capsPage2a)
  else d.fail SenseKey.illegalRequest Asc.invalidFieldInCdb

def modeSelect10 : CmdResult × AtapiDevice := (.data [], d)

def applyAudioPage (body : List UInt8) : AtapiDevice :=
  { d with audioVolume :=
      (if 8 ≤ body.length then body.getD 7 0 else d.audioVolume.1,
        if 10 ≤ body.length then body.getD 9 0 else d.audioVolume.2) }

def applyPages (params : List UInt8) : ℕ → AtapiDevice → ℕ → CmdResult × AtapiDevice
  | 0, d, _ => (.data [], d)
  | fuel + 1, d, idx =>
    if params.length < idx + 2 then (.data [], d)
    else
      let pageCode := params.getD idx 0 &&& 0x3F
      let bodyStart := idx + 2
      let bodyEnd := bodyStart + (params.getD (idx + 1) 0).toNat
      if params.length < bodyEnd then d.fail SenseKey.illegalRequest Asc.invalidFieldInCdb
      else
        let body := (params.drop bodyStart).take (bodyEnd - bodyStart)
        applyPages params fuel (if pageCode = 0x0E then d.applyAudioPage body else d) bodyEnd

def modeSelectData (params : List UInt8) : CmdResult × AtapiDevice :=
  let d := { d with interruptReason := InterruptReason.commandComplete }
  if params.length < 8 then d.fail SenseKey.illegalRequest Asc.invalidFieldInCdb
  else
    let bdLen := (params.getD 6 0).toNat * 256 + (params.getD 7 0).toNat
    applyPages params params.length d (8 + bdLen)

def audioCovers (image : CdImage) (last : ℕ) : ℕ → ℕ → Bool
  | 0, _ => true
  | fuel + 1, lba =>
    if last ≤ lba then true
    else match image.trackAtLba lba with
      | none => false
      | some track =>
        if track.mode.isAudio then audioCovers image last fuel (min track.endLba last) else false

def startPlay (start last : ℕ) : CmdResult × AtapiDevice :=
  match d.image with
  | none => d.fail SenseKey.notReady Asc.notReadyNoMedium
  | some image =>
    if last < start ∨ image.totalSectors < last then
      d.fail SenseKey.illegalRequest Asc.invalidFieldInCdb
    else if audioCovers image last (last - start + 1) start then
      (.data [], d.setPlayRange start last)
    else d.fail SenseKey.illegalRequest Asc.invalidFieldInCdb

def playAudio10 : CmdResult × AtapiDevice :=
  d.startPlay (cdb.be32 2) (min (cdb.be32 2 + cdb.be16 7) (2 ^ 32 - 1))

def playAudioMsf : CmdResult × AtapiDevice :=
  d.startPlay (msfToLba (cdb.byte 3) (cdb.byte 4) (cdb.byte 5))
    (msfToLba (cdb.byte 6) (cdb.byte 7) (cdb.byte 8))

def pauseResume : CmdResult × AtapiDevice :=
  let play := if cdb.byte 8 &&& 0x01 ≠ 0 then
      if d.play.paused then
        { d.play with paused := false, playing := decide (d.play.currentLba < d.play.endLba) }
      else d.play
    else if d.play.playing then { d.play with playing := false, paused := true }
    else d.play
  (.data [], { d with play := play })

def stopAudio : CmdResult × AtapiDevice := (.data [], d.stopPlayback)

def readSubchannel : CmdResult × AtapiDevice :=
  let msf := decide (cdb.byte 1 &&& 0x02 ≠ 0)
  let audioStatus : UInt8 := if d.play.playing then 0x11 else if d.play.paused then 0x12 else 0x13
  let block := if cdb.byte 2 &&& 0x40 ≠ 0 ∧ cdb.byte 3 = 0x01 then
      let lba := d.play.currentLba
      let track := d.image.bind fun image => (image.trackAtLba lba).or
        (image.tracks.reverse.find? fun t => t.startLba ≤ lba)
      [0x01, trackControl ((track.map (·.mode.isAudio)).getD false), (track.map (·.number)).getD 1,
        1] ++ putAddr lba msf ++ putRelativeAddr (lba - (track.map (·.startLba)).getD 0) msf
    else []
  (truncate ([0, audioStatus] ++ toBe16 (block.length + 2) ++ block) (cdb.be16 7), d)

def mechanismStatus : CmdResult × AtapiDevice :=
  (truncate (List.replicate 8 0) (cdb.be16 8), d)

def interpret : CmdResult × AtapiDevice :=
  match cdb.opcode with
  | 0x00 => d.testUnitReady
  | 0x03 => d.requestSense cdb
  | 0x12 => d.inquiry cdb
  | 0x1B => d.startStopUnit cdb
  | 0x1E => d.preventAllowRemoval cdb
  | 0x25 => d.readCapacity
  | 0x28 => d.read10 cdb
  | 0x2B => d.seek cdb
  | 0x42 => d.readSubchannel cdb
  | 0x43 => d.readToc cdb
  | 0x44 => d.readHeader cdb
  | 0x45 => d.playAudio10 cdb
  | 0x47 => d.playAudioMsf cdb
  | 0x4B => d.pauseResume cdb
  | 0x4E => d.stopAudio
  | 0x55 => d.modeSelect10
  | 0x5A => d.modeSense10 cdb
  | 0xA8 => d.read12 cdb
  | 0xBD => d.mechanismStatus cdb
  | 0xBE => d.readCd cdb
  | _ => d.fail SenseKey.illegalRequest Asc.invalidCommand

def execute : CmdResult × AtapiDevice :=
  match d.interpret cdb with
  | (.data (b :: rest), d) =>
    (.data (b :: rest), { d with interruptReason := InterruptReason.dataIn })
  | (result, d) => (result, { d with interruptReason := InterruptReason.commandComplete })

end AtapiDevice

end IzarraVM.Ide
