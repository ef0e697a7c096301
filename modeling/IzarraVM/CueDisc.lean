import IzarraVM.CueSheet

/-! The disc of a CUE sheet (`CdImage::build`): tracks on the timeline, cursors in the files. -/
namespace IzarraVM.Cue

open Ide (TrackMode Track DataSector CdImage)

structure AudioFrame where
  bytes : List UInt8
  full : bytes.length = 2352

structure AudioTrackSource where
  sectors : ℕ
  frame : ℕ → Option AudioFrame

inductive CueSource where
  | raw (bytes : List UInt8)
  | audio (source : AudioTrackSource)

structure BuildFile where
  name : Text
  source : CueSource
  fileType : CueFileType

def BuildFile.rawBytes (file : BuildFile) : List UInt8 :=
  match file.source with
  | .raw bytes => bytes
  | .audio _ => []

def fileBase (files : List BuildFile) (index : ℕ) : ℕ :=
  ((files.take index).flatMap BuildFile.rawBytes).length

structure DiscTrack extends Track where
  byteSwapped : Bool

structure Disc where
  bytes : List UInt8
  tracks : List DiscTrack
  audioSources : List (UInt8 × AudioTrackSource)
  totalSectors : ℕ

namespace Disc

variable (disc : Disc)

def toImage : CdImage := ⟨.bytes disc.bytes, disc.tracks.map DiscTrack.toTrack, disc.totalSectors⟩

def trackAtLba (lba : ℕ) : Option DiscTrack :=
  disc.tracks.find? fun t => t.startLba ≤ lba ∧ lba < t.endLba

def readDataSector (lba : ℕ) : Option DataSector := disc.toImage.readDataSector lba

def swapSamples : List UInt8 → List UInt8
  | a :: b :: rest => b :: a :: swapSamples rest
  | short => short

theorem length_swapSamples : ∀ bytes : List UInt8, (swapSamples bytes).length = bytes.length
  | [] => rfl
  | [_] => rfl
  | a :: b :: rest => by simp [swapSamples, length_swapSamples rest]

def audioFrame (bytes : List UInt8) (offset : ℕ) (swapped : Bool) : Option AudioFrame :=
  let slice := (bytes.drop offset).take 2352
  if h : slice.length = 2352 then
    if swapped then some ⟨swapSamples slice, (length_swapSamples slice).trans h⟩
    else some ⟨slice, h⟩
  else none

def audioSource (number : UInt8) : Option AudioTrackSource := disc.audioSources.lookup number

def readAudioFrame (lba : ℕ) : Option AudioFrame := do
  let track ← disc.trackAtLba lba
  if !track.mode.isAudio then none
  else
    match disc.audioSource track.number with
    | some source => source.frame (lba - track.startLba)
    | none =>
      audioFrame disc.bytes (track.imageOffset + (lba - track.startLba) * track.mode.rawSize)
        track.byteSwapped

end Disc

structure Layout where
  cursors : ℕ → ℕ
  tracks : List DiscTrack
  audioSources : List (UInt8 × AudioTrackSource)
  discLba : ℕ

namespace Layout

def empty : Layout := ⟨fun _ => 0, [], [], 0⟩

def push (s : Layout) (p : CueTrack) (discLba sectors imageOffset : ℕ) (byteSwapped : Bool) :
    Layout :=
  { s with
    tracks := s.tracks ++ [⟨⟨p.number, p.mode, discLba, sectors, imageOffset⟩, byteSwapped⟩]
    discLba := (discLba + sectors) % 2 ^ 32 }

def layAudio (sheet : List CueTrack) (s : Layout) (p : CueTrack) (name : Text)
    (source : AudioTrackSource) (discLba : ℕ) : Except String Layout :=
  if !p.mode.isAudio then
    .error (shown name ++ " is an encoded audio file, but the CUE declares track " ++
      toString p.number ++ " on it as a data track; a data track must be raw")
  else if 1 < (sheet.filter fun t => t.fileIndex = p.fileIndex).length then
    .error (shown name ++ " is an encoded audio file named by more than one TRACK; " ++
      "one encoded file holds exactly one track")
  else if (s.audioSources.lookup p.number).isSome then
    .error ("CUE declares track " ++ toString p.number ++ " twice")
  else
    .ok ({ s with audioSources := (p.number, source) :: s.audioSources }.push p discLba
      source.sectors 0 false)

def rawSectors (bytes : List UInt8) (cursor : ℕ) (p : CueTrack) (next : Option CueTrack) : ℕ :=
  match next.filter fun n => n.fileIndex = p.fileIndex with
  | some n => n.startFrame - p.startFrame
  | none => (bytes.length - cursor) / p.mode.rawSize % 2 ^ 32

def layRaw (files : List BuildFile) (s : Layout) (p : CueTrack) (next : Option CueTrack)
    (file : BuildFile) (bytes : List UInt8) (discLba : ℕ) : Except String Layout :=
  let cursor := s.cursors p.fileIndex
  let sectors := rawSectors bytes cursor p next
  let span := sectors * p.mode.rawSize
  if bytes.length < cursor + span then
    .error ("track " ++ toString p.number ++ " (offset " ++ toString cursor ++ ", " ++
      toString span ++ " bytes) runs past its file (" ++ toString bytes.length ++ " bytes)")
  else
    .ok ({ s with cursors := Function.update s.cursors p.fileIndex (cursor + span) }.push p discLba
      sectors (fileBase files p.fileIndex + cursor)
      (p.mode.isAudio && decide (file.fileType = CueFileType.motorola)))

def layTrack (sheet : List CueTrack) (files : List BuildFile) (s : Layout) (p : CueTrack)
    (next : Option CueTrack) : Except String Layout :=
  match files[p.fileIndex]? with
  | none => .error ("track " ++ toString p.number ++ " references an absent FILE")
  | some file =>
    -- a pregap is on the timeline whichever way the frames are made
    let discLba := (s.discLba + p.pregapFrames) % 2 ^ 32
    match file.source with
    | .audio source => layAudio sheet s p file.name source discLba
    | .raw bytes => layRaw files s p next file bytes discLba

def layTracks (sheet : List CueTrack) (files : List BuildFile) (s : Layout) :
    List CueTrack → Except String Layout
  | [] => .ok s
  | p :: rest => do
    let s ← layTrack sheet files s p rest.head?
    layTracks sheet files s rest

end Layout

def build (sheet : List CueTrack) (files : List BuildFile) : Except String Disc :=
  if sheet = [] then .error "CUE sheet declared no tracks"
  else if files.isEmpty then .error "CUE sheet declared no FILE"
  else do
    let s ← Layout.layTracks sheet files Layout.empty sheet
    .ok ⟨files.flatMap BuildFile.rawBytes, s.tracks, s.audioSources, s.discLba⟩

end IzarraVM.Cue
