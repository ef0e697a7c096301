import IzarraVM.Atapi
import Mathlib

/-! The reader of CUE sheets (`parse_cue` of `cdimage.rs`). -/
namespace IzarraVM.Cue

open Ide (TrackMode)

abbrev Text : Type := List Char

def isWhitespace (c : Char) : Bool :=
  (0x09 ≤ c.toNat && c.toNat ≤ 0x0d) || c.toNat == 0x20 || c.toNat == 0x85 || c.toNat == 0xa0 ||
    c.toNat == 0x1680 || (0x2000 ≤ c.toNat && c.toNat ≤ 0x200a) || c.toNat == 0x2028 ||
    c.toNat == 0x2029 || c.toNat == 0x202f || c.toNat == 0x205f || c.toNat == 0x3000

variable (text : Text)

def trimStart : Text := text.dropWhile isWhitespace

def trim : Text := (trimStart (trimStart text).reverse).reverse

def splitWhitespace : List Text := (text.splitOnP isWhitespace).filter (· ≠ [])

def stripCr (line : Text) : Text := if line.getLast? = some '\r' then line.dropLast else line

def lines : List Text :=
  match (text.splitOn '\n').reverse with
  | [] => []
  | last :: ended => ended.reverse.map stripCr ++ if last = [] then [] else [last]

def asciiUpper (c : Char) : Char :=
  if 'a'.toNat ≤ c.toNat ∧ c.toNat ≤ 'z'.toNat then Char.ofNat (c.toNat - 32) else c

def toAsciiUppercase : Text := text.map asciiUpper

def isDigit (c : Char) : Bool := '0'.toNat ≤ c.toNat && c.toNat ≤ '9'.toNat

def parseUnsigned (bound : ℕ) (text : Text) : Option ℕ :=
  let digits :=
    match text with
    | '+' :: digit :: rest => digit :: rest
    | _ => text
  if digits = [] ∨ !digits.all isDigit then none
  else
    let value := digits.foldl (fun value c => value * 10 + (c.toNat - '0'.toNat)) 0
    if value < bound then some value else none

def framesPerSec : ℕ := 75

def shown : String := String.ofList text

def parseMsf (msf : Text) : Except String ℕ :=
  match msf.splitOn ':' with
  | [minutes, seconds, frames] =>
    match parseUnsigned (2 ^ 32) minutes with
    | none => .error ("bad minutes '" ++ shown msf ++ "'")
    | some m =>
      match parseUnsigned (2 ^ 32) seconds with
      | none => .error ("bad seconds '" ++ shown msf ++ "'")
      | some s =>
        match parseUnsigned (2 ^ 32) frames with
        | none => .error ("bad frames '" ++ shown msf ++ "'")
        | some f =>
          if s ≥ 60 ∨ f ≥ framesPerSec then .error ("MSF field out of range '" ++ shown msf ++ "'")
          else .ok (((m * 60 % 2 ^ 32 + s) % 2 ^ 32 * framesPerSec % 2 ^ 32 + f) % 2 ^ 32)
  | _ => .error ("malformed MSF '" ++ shown msf ++ "'")

inductive CueFileType where
  | binary
  | motorola
  | other (token : Text)
  deriving DecidableEq, Repr

def CueFileType.parse (token : Option Text) : CueFileType :=
  match token.map toAsciiUppercase with
  | none => .binary
  | some upper =>
    if upper = "BINARY".toList then .binary
    else if upper = "MOTOROLA".toList then .motorola
    else .other upper

structure CueTrack where
  number : UInt8
  mode : TrackMode
  startFrame : ℕ
  /-- On the disc's timeline, and not in the file. -/
  pregapFrames : ℕ
  fileIndex : ℕ
  deriving DecidableEq

abbrev CueFile : Type := Text × CueFileType

structure Sheet where
  files : List CueFile
  tracks : List CueTrack
  pending : Option (UInt8 × TrackMode)
  pendingPregap : ℕ
  deriving DecidableEq

def splitName (rest : Text) : Option Text × Text :=
  match rest with
  | '"' :: quoted =>
    match quoted.dropWhile (· ≠ '"') with
    | _ :: after => (some (quoted.takeWhile (· ≠ '"')), after)
    | [] => (none, [])
  | _ => (some (rest.takeWhile (!isWhitespace ·)), (rest.dropWhile (!isWhitespace ·)).tail)

def parseMode (line : Text) : Option Text → Except String TrackMode
  | none => .error ("missing TRACK mode in '" ++ shown line ++ "'")
  | some word =>
    let upper := toAsciiUppercase word
    if upper = "MODE1/2048".toList then .ok .mode1_2048
    else if upper = "MODE1/2352".toList then .ok .mode1_2352
    else if upper = "MODE2/2048".toList then .ok .mode2_2048
    else if upper = "MODE2/2336".toList then .ok .mode2_2336
    else if upper = "MODE2/2352".toList then .ok .mode2_2352
    else if upper = "MODE1/2448".toList then .ok .mode1_2448
    else if upper = "AUDIO".toList then .ok .audio
    else if upper = "CDG".toList then .ok .audioCdg
    else .error ("unsupported TRACK mode '" ++ shown upper ++ "'")

def parseFile (sheet : Sheet) (line trimmed keyword : Text) : Except String Sheet :=
  match splitName (trimStart (trimmed.drop keyword.length)) with
  | (some (c :: name), after) =>
    .ok { sheet with
      files := sheet.files ++ [(c :: name, CueFileType.parse (splitWhitespace after).head?)] }
  | _ => .error ("missing FILE name in '" ++ shown line ++ "'")

def parseTrack (sheet : Sheet) (line : Text) (words : List Text) : Except String Sheet :=
  match words.head?.bind (parseUnsigned (2 ^ 8)) with
  | none => .error ("bad TRACK number in '" ++ shown line ++ "'")
  | some number => do
    let mode ← parseMode line words.tail.head?
    .ok { sheet with pending := some (UInt8.ofNat number, mode), pendingPregap := 0 }

def parsePregap (sheet : Sheet) (line : Text) (words : List Text) : Except String Sheet :=
  match words.head? with
  | none => .error ("missing PREGAP time in '" ++ shown line ++ "'")
  | some msf => do
    let frames ← parseMsf msf
    .ok { sheet with pendingPregap := frames }

def parseIndex (sheet : Sheet) (line : Text) (words : List Text) : Except String Sheet :=
  if (words.head?.bind (parseUnsigned (2 ^ 8))).getD 0 ≠ 1 then .ok sheet
  else
    match words.tail.head? with
    | none => .error ("missing INDEX time in '" ++ shown line ++ "'")
    | some msf => do
      let frame ← parseMsf msf
      match sheet.pending with
      | none => .error ("INDEX before TRACK in '" ++ shown line ++ "'")
      | some (number, mode) =>
        .ok { sheet with
          tracks := sheet.tracks ++ [⟨number, mode, frame, sheet.pendingPregap, sheet.files.length - 1⟩]
          pending := none
          pendingPregap := 0 }

def parseLine (sheet : Sheet) (line : Text) : Except String Sheet :=
  let trimmed := trim line
  match splitWhitespace trimmed with
  | [] => .ok sheet
  | keyword :: words =>
    let upper := toAsciiUppercase keyword
    if upper = "FILE".toList then parseFile sheet line trimmed keyword
    else if upper = "TRACK".toList then parseTrack sheet line words
    else if upper = "PREGAP".toList then parsePregap sheet line words
    else if upper = "INDEX".toList then parseIndex sheet line words
    else .ok sheet

def stripBom (cue : Text) : Text :=
  match cue with
  | c :: rest => if c.toNat = 0xfeff then rest else cue
  | [] => []

def parseLines (sheet : Sheet) : List Text → Except String Sheet
  | [] => .ok sheet
  | line :: rest => do
    let sheet ← parseLine sheet line
    parseLines sheet rest

def parseCue (cue : Text) : Except String (List CueFile × List CueTrack) := do
  let sheet ← parseLines ⟨[], [], none, 0⟩ (lines (stripBom cue))
  .ok (sheet.files, sheet.tracks.insertionSort fun a b => a.number ≤ b.number)

end IzarraVM.Cue
