import IzarraVM.MidiRoundTrip
import IzarraVM.StepRuns

/-! Any bytes at the data port, with messages taken from the queue at any time. -/
namespace IzarraVM.Midi

def Complete (bytes : Bytes) : Prop :=
  (∃ m : Message, bytes = m.bytes) ∨ ∃ b, 0xf7 ≤ b ∧ bytes = [b]

inductive Reached : MidiParser → Prop
  | reset : Reached .reset
  | within {running : Option UInt8} {status : UInt8} (got : Bytes)
      (kind : running = some status ∧ 0x80 ≤ status ∧ status ≤ 0xef ∨
        running = none ∧ 0xf1 ≤ status ∧ status ≤ 0xf6)
      (short : got.length + 2 ≤ messageLen status) (plain : Plain got) :
      Reached (within running status got)
  | sysEx (got : Bytes) {overflow : Bool} (plain : Plain got)
      (short : got.length + 2 ≤ sysexCapacity) :
      Reached ⟨none, [], 0, some (0xf0 :: got), overflow⟩

/-- What a byte leads to: a state that is reached, and at most one message, a complete one. -/
def Fed (r : MidiParser × List Bytes) : Prop :=
  Reached r.1 ∧ ∃ done : Option Bytes, r.2 = done.toList ∧ ∀ m ∈ done, Complete m

theorem Fed.silent {p : MidiParser} (h : Reached p) : Fed (p, []) := ⟨h, none, rfl, nofun⟩

theorem Fed.completes {p : MidiParser} {m : Bytes} (h : Reached p) (hm : Complete m) :
    Fed (p, [m]) := by
  refine ⟨h, some m, rfl, ?_⟩
  rintro _ ⟨⟩
  exact hm

theorem Plain.snoc {got : Bytes} {b : UInt8} (h : Plain got) (hb : b < 0x80) :
    Plain (got ++ [b]) := by
  intro c hc
  rcases List.mem_append.mp hc with hgot | hlast
  · exact h c hgot
  · rw [List.mem_singleton.mp hlast]
    exact hb

theorem startStatus_fed {p : MidiParser} {status : UInt8} (hsysex : p.sysex = none)
    (hoverflow : p.sysexOverflow = false) (hstatus : 0x80 ≤ status) :
    Fed (p.startStatus status) := by
  obtain ⟨running, message, expected, sysex, overflow⟩ := p
  obtain rfl : sysex = none := hsysex
  obtain rfl : overflow = false := hoverflow
  have hcases : ∀ status : UInt8, ¬ status ≤ 0xef → status ≠ 0xf0 →
      0xf1 ≤ status ∧ (status ≤ 0xf6 ∨ 0xf7 ≤ status) := by decide +kernel
  unfold MidiParser.startStatus
  dsimp only
  split_ifs with hchannel hopen hdata
  · exact .silent (.within [] (.inl ⟨rfl, hstatus, hchannel⟩)
      (channel_long status ⟨hstatus, hchannel⟩) nofun)
  · exact .silent (hopen ▸ .sysEx [] nofun (by decide))
  · have hcommon : 0xf1 ≤ status ∧ status ≤ 0xf6 :=
      ⟨(hcases status hchannel hopen).1, UInt8.le_trans hdata (by decide)⟩
    rcases common_cases hcommon with ⟨-, htwo⟩ | ⟨hnone, -⟩
    · exact .silent (.within [] (.inr ⟨rfl, hcommon⟩) htwo nofun)
    · exact absurd hdata hnone
  · refine .completes .reset ?_
    obtain ⟨hlow, hhigh | hend⟩ := hcases status hchannel hopen
    · rcases common_cases ⟨hlow, hhigh⟩ with ⟨hshort, -⟩ | ⟨-, hone⟩
      · exact absurd hshort hdata
      · exact .inl ⟨.common status [] ⟨hlow, hhigh⟩ hone.symm nofun, rfl⟩
    · exact .inr ⟨status, hend, rfl⟩

theorem Reached.push_data {p : MidiParser} (h : Reached p) {b : UInt8} (hb : b < 0x80) :
    Fed (p.push b) := by
  have hreal := not_realTime_of_lt hb
  cases h with
  | reset =>
    have hpush : MidiParser.reset.push b = (.reset, []) := by
      unfold MidiParser.push MidiParser.pushPlain
      rw [if_neg hreal]
      exact if_neg (UInt8.not_le.mpr hb)
    rw [hpush]
    exact .silent .reset
  | @within running status got kind short plain =>
    have hlength : (got ++ [b]).length = got.length + 1 := List.length_append
    rw [push_within (kind.imp And.left And.left) hb short]
    split_ifs with hdone
    · rcases kind with ⟨rfl, kind⟩ | ⟨rfl, kind⟩
      · exact .completes (.within [] (.inl ⟨rfl, kind⟩) (channel_long status kind) nofun)
          (.inl ⟨.channel status (got ++ [b]) kind (by omega) (plain.snoc hb), rfl⟩)
      · exact .completes .reset
          (.inl ⟨.common status (got ++ [b]) kind (by omega) (plain.snoc hb), rfl⟩)
    · exact .silent (.within _ kind (by omega) (plain.snoc hb))
  | sysEx got plain short =>
    unfold MidiParser.push
    rw [if_neg hreal]
    dsimp only
    rw [if_neg (ne_end_of_lt hb), if_pos hb]
    split_ifs with hroom
    · have hlength : (got ++ [b]).length = got.length + 1 := List.length_append
      rw [List.length_cons] at hroom
      exact .silent (.sysEx (got ++ [b]) (plain.snoc hb) (by omega))
    · exact .silent (.sysEx got plain short)

theorem Reached.push {p : MidiParser} (h : Reached p) (b : UInt8) : Fed (p.push b) := by
  by_cases hreal : RealTime b
  · rw [push_realTime p hreal]
    exact .completes h (.inr ⟨b, UInt8.le_trans (by decide) hreal, rfl⟩)
  by_cases hb : b < 0x80
  · exact h.push_data hb
  have hstatus := UInt8.not_lt.mp hb
  cases h with
  | sysEx got plain short =>
    unfold MidiParser.push MidiParser.pushPlain
    rw [if_neg hreal]
    dsimp only
    split_ifs with hend
    · exact .silent .reset
    · exact .completes .reset (.inl ⟨.sysEx got plain short, hend ▸ rfl⟩)
    · exact startStatus_fed rfl rfl hstatus
  | _ =>
    unfold MidiParser.push MidiParser.pushPlain
    rw [if_neg hreal]
    exact (if_pos hstatus).symm ▸ startStatus_fed rfl rfl hstatus

inductive PortEvent where
  | write (value : UInt8) (tick : ℕ)
  | take

def PortEvent.byte? : PortEvent → Option UInt8
  | .write value _ => some value
  | .take => none

/-- The port, and the messages the host has taken from it. -/
def Uart.step (s : Uart × List Bytes) : PortEvent → Uart × List Bytes
  | .write value tick => (s.1.writeData value tick, s.2)
  | .take => (s.1.takeMessage.2, s.2 ++ (s.1.takeMessage.1.map TimedMidiMessage.bytes).toList)

def passed (s : Uart × List Bytes) : List Bytes := s.2 ++ s.1.output.map TimedMidiMessage.bytes

/-- A byte that is written does not find the queue full. -/
def Uart.Room (s : Uart × List Bytes) : PortEvent → Prop
  | .write _ _ => s.1.output.length < outputCapacity
  | .take => True

theorem passed_take (s : Uart × List Bytes) : passed (Uart.step s .take) = passed s := by
  obtain ⟨⟨parser, output, now⟩, taken⟩ := s
  cases output with
  | nil => simp [passed, Uart.step, Uart.takeMessage]
  | cons m rest => simp [passed, Uart.step, Uart.takeMessage]

theorem passed_write {s : Uart × List Bytes} {done : Option Bytes} (value : UInt8) (tick : ℕ)
    (hdone : (s.1.parser.push value).2 = done.toList) (hfull : s.1.output.length ≤ outputCapacity) :
    let next := Uart.step s (.write value tick)
    next.1.parser = (s.1.parser.push value).1 ∧ next.1.output.length ≤ outputCapacity ∧
      (passed next).Sublist (passed s ++ done.toList) ∧
      (s.1.output.length < outputCapacity → passed next = passed s ++ done.toList) := by
  obtain ⟨⟨parser, output, now⟩, taken⟩ := s
  dsimp only at hdone hfull ⊢
  rw [Uart.step, Uart.writeData]
  dsimp only
  rw [hdone]
  cases done with
  | none => simp [passed, hfull]
  | some m =>
    have hpositive : 0 < outputCapacity := by decide
    rw [Option.toList_some, List.foldl_cons, List.foldl_nil, Uart.queueOutput, passed, passed]
    dsimp only
    split_ifs with hlimit
    · refine ⟨rfl, ?_, ?_, fun hroom => absurd hlimit hroom.ne⟩
      · rw [List.length_append, List.length_tail, List.length_singleton]
        omega
      · rw [List.map_append, ← List.append_assoc]
        exact (((List.tail_sublist output).map _).append_left taken).append_right [m]
    · have hsame : taken ++ (output ++ [TimedMidiMessage.mk tick m]).map TimedMidiMessage.bytes =
          taken ++ output.map TimedMidiMessage.bytes ++ [m] := by
        rw [List.map_append, List.append_assoc]
        rfl
      refine ⟨rfl, ?_, hsame ▸ List.Sublist.refl _, fun _ => hsame⟩
      rw [List.length_append, List.length_singleton]
      omega

/-- What goes through the port: complete messages, none of them twice or out of order, and all of
them where no byte finds the queue full. -/
structure Passes (events : List PortEvent) (s : Uart × List Bytes) (completed : List Bytes) :
    Prop where
  complete : ∀ m ∈ completed, Complete m
  bounded : (Runs.exec Uart.step events s).1.output.length ≤ outputCapacity
  ordered : (passed (Runs.exec Uart.step events s)).Sublist (passed s ++ completed)
  lossless : Runs.Along Uart.step Uart.Room events s →
    passed (Runs.exec Uart.step events s) = passed s ++ completed

theorem run_passes (events : List PortEvent) : ∀ {s : Uart × List Bytes}, Reached s.1.parser →
    s.1.output.length ≤ outputCapacity →
    Passes events s (s.1.parser.feed (events.filterMap PortEvent.byte?)).2 := by
  induction events with
  | nil =>
    intro s _ hbounded
    exact ⟨nofun, hbounded, by simp [MidiParser.feed], by simp [MidiParser.feed]⟩
  | cons event rest ih =>
    intro s hreached hbounded
    cases event with
    | take =>
      have hshorter : (Uart.step s .take).1.output.length ≤ outputCapacity :=
        (List.tail_sublist s.1.output).length_le.trans hbounded
      have hrest := ih (s := Uart.step s .take) hreached hshorter
      have hkept := passed_take s
      refine ⟨hrest.complete, hrest.bounded, hkept ▸ hrest.ordered, fun hroom => ?_⟩
      exact (hrest.lossless hroom.2).trans (hkept ▸ rfl)
    | write value tick =>
      obtain ⟨hnext, done, hdone, hcomplete⟩ := hreached.push value
      obtain ⟨hparser, hlength, hsub, heq⟩ := passed_write value tick hdone hbounded
      have hrest := ih (s := Uart.step s (.write value tick)) (hparser ▸ hnext) hlength
      rw [hparser] at hrest
      -- the parser's next byte is the first of the bytes written
      have hfeed : (s.1.parser.feed
          ((PortEvent.write value tick :: rest).filterMap PortEvent.byte?)).2 = done.toList ++
            ((s.1.parser.push value).1.feed (rest.filterMap PortEvent.byte?)).2 :=
        congrArg (· ++ _) hdone
      rw [hfeed]
      refine ⟨fun m hm => ?_, hrest.bounded, ?_, fun hroom => ?_⟩
      · rcases List.mem_append.mp hm with hfirst | hlater
        · exact hcomplete m (Option.mem_toList.mp hfirst)
        · exact hrest.complete m hlater
      · rw [← List.append_assoc]
        exact hrest.ordered.trans (hsub.append_right _)
      · rw [← List.append_assoc, ← heq hroom.1]
        exact hrest.lossless hroom.2

/-- Whatever bytes are written to the port, and whenever messages are taken from it. -/
theorem data_port_passes (queued : List TimedMidiMessage) (now : ℕ) (events : List PortEvent)
    (hqueued : queued.length ≤ outputCapacity) :
    Passes events (⟨.reset, queued, now⟩, [])
      (MidiParser.reset.feed (events.filterMap PortEvent.byte?)).2 :=
  run_passes events (s := (⟨.reset, queued, now⟩, [])) .reset hqueued

theorem note_passes : passed (Runs.exec Uart.step
    [.write 0x90 0, .write 60 1, .take, .write 64 2, .take] (⟨.reset, [], 0⟩, [])) =
      [[0x90, 60, 64]] :=
  (data_port_passes [] 0 [.write 0x90 0, .write 60 1, .take, .write 64 2, .take]
    (by decide)).lossless
      ⟨(show 0 < outputCapacity by decide), (show 0 < outputCapacity by decide), trivial,
        (show 0 < outputCapacity by decide), trivial, trivial⟩

end IzarraVM.Midi
