import Mathlib

/-! The MIDI stream parser of the MPU-401 in UART mode (`mpu401.rs`), and the data port in front of
it. -/
namespace IzarraVM.Midi

abbrev Bytes : Type := List UInt8

def outputCapacity : ℕ := 1024
def sysexCapacity : ℕ := 65536

def messageLen (status : UInt8) : ℕ :=
  if 0xc0 ≤ status ∧ status ≤ 0xdf ∨ status = 0xf1 ∨ status = 0xf3 then 2
  else if 0x80 ≤ status ∧ status ≤ 0xbf ∨ 0xe0 ≤ status ∧ status ≤ 0xef ∨ status = 0xf2 then 3
  else 1

structure MidiParser where
  runningStatus : Option UInt8
  message : Bytes
  expectedLen : ℕ
  sysex : Option Bytes
  sysexOverflow : Bool
  deriving DecidableEq

def MidiParser.reset : MidiParser := ⟨none, [], 0, none, false⟩

variable (p : MidiParser)

def MidiParser.startStatus (status : UInt8) : MidiParser × List Bytes :=
  let p := { p with message := [], expectedLen := 0 }
  if status ≤ 0xef then
    ({ p with runningStatus := some status, message := [status],
              expectedLen := messageLen status }, [])
  else if status = 0xf0 then ({ p with runningStatus := none, sysex := some [status] }, [])
  else if status ≤ 0xf3 then
    ({ p with runningStatus := none, message := [status], expectedLen := messageLen status }, [])
  else ({ p with runningStatus := none }, [[status]])

def MidiParser.pushData (value : UInt8) : MidiParser × List Bytes :=
  let begun : Option MidiParser :=
    if p.expectedLen = 0 then
      match p.runningStatus with
      | none => none
      | some status => some { p with message := [status], expectedLen := messageLen status }
    else some p
  match begun with
  | none => (p, [])
  | some p =>
    let p := { p with message := p.message ++ [value] }
    if p.message.length = p.expectedLen then
      match p.runningStatus with
      | some status =>
        ({ p with message := [status], expectedLen := messageLen status }, [p.message])
      | none => ({ p with message := [], expectedLen := 0 }, [p.message])
    else (p, [])

def MidiParser.pushPlain (value : UInt8) : MidiParser × List Bytes :=
  if 0x80 ≤ value then p.startStatus value else p.pushData value

def MidiParser.push (value : UInt8) : MidiParser × List Bytes :=
  if 0xf8 ≤ value then (p, [[value]])
  else
    match p.sysex with
    | none => p.pushPlain value
    | some message =>
      if value = 0xf7 then
        if p.sysexOverflow then ({ p with sysex := none, sysexOverflow := false }, [])
        else ({ p with sysex := none, sysexOverflow := false }, [message ++ [value]])
      else if value < 0x80 then
        if message.length + 1 < sysexCapacity then ({ p with sysex := some (message ++ [value]) }, [])
        else ({ p with sysexOverflow := true }, [])
      else { p with sysex := none, sysexOverflow := false }.pushPlain value

def MidiParser.feed : MidiParser → Bytes → MidiParser × List Bytes
  | p, [] => (p, [])
  | p, value :: rest =>
    let (p, completed) := p.push value
    let (p, later) := p.feed rest
    (p, completed ++ later)

structure TimedMidiMessage where
  guestTick : ℕ
  bytes : Bytes
  deriving DecidableEq

structure Uart where
  parser : MidiParser
  output : List TimedMidiMessage
  nowTick : ℕ

def Uart.queueOutput (u : Uart) (guestTick : ℕ) (bytes : Bytes) : Uart :=
  let kept := if u.output.length = outputCapacity then u.output.tail else u.output
  { u with output := kept ++ [⟨guestTick, bytes⟩] }

def Uart.writeData (u : Uart) (value : UInt8) (guestTick : ℕ) : Uart :=
  let (parser, completed) := u.parser.push value
  completed.foldl (fun u bytes => u.queueOutput guestTick bytes)
    { u with parser := parser, nowTick := max u.nowTick guestTick }

def Uart.takeMessage (u : Uart) : Option TimedMidiMessage × Uart :=
  (u.output.head?, { u with output := u.output.tail })

end IzarraVM.Midi
