import IzarraVM.MidiParser

/-! MIDI messages sent as bytes, with real-time bytes among them, come out as they went in. -/
namespace IzarraVM.Midi

abbrev RealTime (b : UInt8) : Prop := 0xf8 ≤ b

def Plain (data : Bytes) : Prop := ∀ b ∈ data, b < 0x80

theorem plain_of_all {data : Bytes} (h : data.all (· < 0x80) = true) : Plain data := by
  intro b hb
  exact of_decide_eq_true (List.all_eq_true.mp h b hb)

inductive Message where
  | channel (status : UInt8) (data : Bytes) (kind : 0x80 ≤ status ∧ status ≤ 0xef)
      (length : data.length + 1 = messageLen status) (plain : Plain data)
  | common (status : UInt8) (data : Bytes) (kind : 0xf1 ≤ status ∧ status ≤ 0xf6)
      (length : data.length + 1 = messageLen status) (plain : Plain data)
  | sysEx (data : Bytes) (plain : Plain data) (short : data.length + 2 ≤ sysexCapacity)

def Message.bytes : Message → Bytes
  | .channel status data .. => status :: data
  | .common status data .. => status :: data
  | .sysEx data .. => 0xf0 :: (data ++ [0xf7])

def Message.running : Message → Option UInt8
  | .channel status .. => some status
  | .common .. => none
  | .sysEx .. => none

def Message.sent (m : Message) (running : Option UInt8) (compact : Bool) : Bytes :=
  match m with
  | .channel status data .. =>
    if compact = true ∧ running = some status then data else status :: data
  | .common .. => m.bytes
  | .sysEx .. => m.bytes

abbrev Mark : Type := UInt8 × Option Bytes

def markLast (done : Bytes) : Bytes → List Mark
  | [] => []
  | [b] => [(b, some done)]
  | b :: rest => (b, none) :: markLast done rest

def serialise : Option UInt8 → List (Message × Bool) → List Mark
  | _, [] => []
  | running, (m, compact) :: rest =>
    markLast m.bytes (m.sent running compact) ++ serialise m.running rest

def expected : List Mark → Bytes → List Bytes
  | _, [] => []
  | marks, b :: rest =>
    if RealTime b then [b] :: expected marks rest
    else
      match marks with
      | [] => []
      | (_, done) :: marks => done.toList ++ expected marks rest

theorem expected_realTime (marks : List Mark) {b : UInt8} (h : RealTime b) (rest : Bytes) :
    expected marks (b :: rest) = [b] :: expected marks rest := by
  cases marks with
  | nil => exact if_pos h
  | cons mark marks => exact if_pos h

theorem expected_mark (c : UInt8) (done : Option Bytes) (marks : List Mark) {b : UInt8}
    (h : ¬ RealTime b) (rest : Bytes) :
    expected ((c, done) :: marks) (b :: rest) = done.toList ++ expected marks rest := if_neg h

def Follows : MidiParser → List Mark → MidiParser → Prop
  | p, [], q => p = q
  | p, (b, done) :: marks, q =>
    ¬ RealTime b ∧ ∃ next, p.push b = (next, done.toList) ∧ Follows next marks q

theorem Follows.append {a b : List Mark} : ∀ {p q r : MidiParser}, Follows p a q → Follows q b r →
    Follows p (a ++ b) r := by
  induction a with
  | nil =>
    rintro p q r rfl h
    exact h
  | cons mark marks ih =>
    rintro p q r ⟨hplain, next, hpush, hrest⟩ h
    exact ⟨hplain, next, hpush, ih hrest h⟩

theorem push_realTime (p : MidiParser) {b : UInt8} (h : RealTime b) : p.push b = (p, [[b]]) :=
  if_pos h

/-- Real-time bytes pass through without a trace in the parser. -/
theorem Follows.feed_eq {stream : Bytes} : ∀ {marks : List Mark} {p q : MidiParser},
    Follows p marks q → (stream.filter fun b => ¬ RealTime b) = marks.map Prod.fst →
    p.feed stream = (q, expected marks stream) := by
  induction stream with
  | nil =>
    intro marks p q h hstream
    cases marks with
    | nil =>
      obtain rfl : p = q := h
      rfl
    | cons mark marks => cases hstream
  | cons b rest ih =>
    intro marks p q h hstream
    by_cases hreal : RealTime b
    · rw [List.filter_cons_of_neg (by simpa using hreal)] at hstream
      rw [MidiParser.feed, push_realTime p hreal, expected_realTime marks hreal]
      dsimp only
      rw [ih h hstream]
      rfl
    · rw [List.filter_cons_of_pos (by simpa using hreal)] at hstream
      cases marks with
      | nil => cases hstream
      | cons mark marks =>
        obtain ⟨c, done⟩ := mark
        obtain ⟨hbyte, hrest⟩ := List.cons.inj hstream
        dsimp only at hbyte
        obtain ⟨-, next, hpush, hnext⟩ := h
        rw [← hbyte] at hpush
        rw [MidiParser.feed, hpush, expected_mark c done marks hreal]
        dsimp only
        rw [ih hnext hrest]

theorem not_realTime_of_le {b c : UInt8} (h : b ≤ c) (hc : c < 0xf8) : ¬ RealTime b :=
  UInt8.not_le.mpr (UInt8.lt_of_le_of_lt h hc)

theorem not_realTime_of_lt {b : UInt8} (h : b < 0x80) : ¬ RealTime b :=
  not_realTime_of_le (UInt8.le_of_lt h) (by decide)

theorem ne_end_of_lt {b : UInt8} (h : b < 0x80) : b ≠ 0xf7 := by
  rintro rfl
  exact absurd h (by decide)

def idle : Option UInt8 → MidiParser
  | none => .reset
  | some status => ⟨some status, [status], messageLen status, none, false⟩

variable (running : Option UInt8)

def within (status : UInt8) (got : Bytes) : MidiParser :=
  ⟨running, status :: got, messageLen status, none, false⟩

theorem push_within {running : Option UInt8} {status : UInt8} {got : Bytes} {b : UInt8}
    (hrunning : running = some status ∨ running = none) (hb : b < 0x80)
    (hlen : got.length + 2 ≤ messageLen status) :
    (within running status got).push b =
      if got.length + 2 = messageLen status then (idle running, [status :: (got ++ [b])])
      else (within running status (got ++ [b]), []) := by
  have hexpected : ¬ messageLen status = 0 := by omega
  have hlength : (status :: got ++ [b]).length = got.length + 2 := by
    rw [List.length_append]
    rfl
  have hpush : (within running status got).push b = (within running status got).pushData b := by
    unfold MidiParser.push MidiParser.pushPlain
    rw [if_neg (not_realTime_of_lt hb)]
    exact if_neg (UInt8.not_le.mpr hb)
  rw [hpush]
  unfold MidiParser.pushData within
  dsimp only
  rw [if_neg hexpected]
  dsimp only
  rw [hlength]
  split_ifs with hdone
  · rcases hrunning with rfl | rfl
    · rfl
    · rfl
  · rfl

/-- The data bytes that are left of a message. -/
theorem follows_data {running : Option UInt8} {status : UInt8}
    (hrunning : running = some status ∨ running = none) (data : Bytes) : ∀ {got : Bytes},
    data ≠ [] → Plain data → got.length + data.length + 1 = messageLen status →
    Follows (within running status got) (markLast (status :: (got ++ data)) data) (idle running) := by
  induction data with
  | nil => exact fun h => absurd rfl h
  | cons b rest ih =>
    intro got _ hplain hlength
    rw [List.length_cons] at hlength
    have hb := hplain b List.mem_cons_self
    have hpush := push_within hrunning hb (show got.length + 2 ≤ messageLen status by omega)
    cases rest with
    | nil =>
      rw [if_pos (by simpa using hlength)] at hpush
      exact ⟨not_realTime_of_lt hb, idle running, hpush, rfl⟩
    | cons c more =>
      rw [List.length_cons] at hlength
      rw [if_neg (by omega)] at hpush
      refine ⟨not_realTime_of_lt hb, within running status (got ++ [b]), hpush, ?_⟩
      have hgot : (got ++ [b]).length + (c :: more).length + 1 = messageLen status := by
        rw [List.length_append, List.length_cons, List.length_cons, List.length_nil]
        omega
      have hrest := ih (List.cons_ne_nil c more)
        (fun d hd => hplain d (List.mem_cons_of_mem _ hd)) hgot
      rw [List.append_assoc] at hrest
      exact hrest

theorem idle_sysex : (idle running).sysex = none := by
  cases running <;> rfl

/-- A status byte between messages. -/
theorem push_status {status : UInt8} (hreal : ¬ RealTime status)
    (hstatus : 0x80 ≤ status) :
    (idle running).push status = (idle running).startStatus status := by
  unfold MidiParser.push
  rw [if_neg hreal, idle_sysex]
  exact if_pos hstatus

theorem channel_long : ∀ status : UInt8, 0x80 ≤ status ∧ status ≤ 0xef → 2 ≤ messageLen status := by
  decide +kernel

theorem channel_data_ne_nil {status : UInt8} {data : Bytes} (kind : 0x80 ≤ status ∧ status ≤ 0xef)
    (length : data.length + 1 = messageLen status) : data ≠ [] := by
  have hlong := channel_long status kind
  rintro rfl
  rw [List.length_nil] at length
  omega

theorem common_cases {status : UInt8} (kind : 0xf1 ≤ status ∧ status ≤ 0xf6) :
    (status ≤ 0xf3 ∧ 2 ≤ messageLen status) ∨ (¬ status ≤ 0xf3 ∧ messageLen status = 1) := by
  revert status
  decide +kernel

theorem markLast_cons (done : Bytes) (b : UInt8) {rest : Bytes} (h : rest ≠ []) :
    markLast done (b :: rest) = (b, none) :: markLast done rest := by
  cases rest with
  | nil => exact absurd rfl h
  | cons c more => rfl

theorem follows_channel (compact : Bool) {status : UInt8} {data : Bytes}
    (kind : 0x80 ≤ status ∧ status ≤ 0xef) (length : data.length + 1 = messageLen status)
    (plain : Plain data) :
    Follows (idle running) (markLast (status :: data)
      (if compact = true ∧ running = some status then data else status :: data))
      (idle (some status)) := by
  have hne := channel_data_ne_nil kind length
  have hdata : Follows (within (some status) status []) (markLast (status :: data) data)
      (idle (some status)) := by
    refine follows_data (Or.inl rfl) data hne plain ?_
    rw [List.length_nil]
    omega
  split_ifs with hcompact
  · rw [hcompact.2]
    exact hdata
  · have hreal := not_realTime_of_le kind.2 (by decide)
    rw [markLast_cons _ _ hne]
    refine ⟨hreal, within (some status) status [], ?_, hdata⟩
    rw [push_status running hreal kind.1, MidiParser.startStatus]
    dsimp only
    rw [if_pos kind.2]
    cases running <;> rfl

theorem follows_common {status : UInt8} {data : Bytes}
    (kind : 0xf1 ≤ status ∧ status ≤ 0xf6) (length : data.length + 1 = messageLen status)
    (plain : Plain data) :
    Follows (idle running) (markLast (status :: data) (status :: data)) (idle none) := by
  have hreal := not_realTime_of_le kind.2 (by decide)
  have hstatus : 0x80 ≤ status := UInt8.le_trans (by decide) kind.1
  have hchannel : ¬ status ≤ 0xef := UInt8.not_le.mpr (UInt8.lt_of_lt_of_le (by decide) kind.1)
  have hsysex : status ≠ 0xf0 := by
    rintro rfl
    exact absurd kind.1 (by decide)
  rcases common_cases kind with ⟨hdata, htwo⟩ | ⟨hdata, hone⟩
  · -- data bytes follow
    have hne : data ≠ [] := by
      rintro rfl
      rw [List.length_nil] at length
      omega
    rw [markLast_cons _ _ hne]
    refine ⟨hreal, within none status [], ?_, ?_⟩
    · rw [push_status running hreal hstatus, MidiParser.startStatus]
      dsimp only
      rw [if_neg hchannel, if_neg hsysex, if_pos hdata]
      cases running <;> rfl
    · refine follows_data (Or.inr rfl) data hne plain ?_
      rw [List.length_nil]
      omega
  · -- the status is the whole message
    obtain rfl : data = [] := List.length_eq_zero_iff.mp (by omega)
    refine ⟨hreal, idle none, ?_, rfl⟩
    rw [push_status running hreal hstatus, MidiParser.startStatus]
    dsimp only
    rw [if_neg hchannel, if_neg hsysex, if_neg hdata]
    cases running <;> rfl

def withinSysEx (got : Bytes) : MidiParser := ⟨none, [], 0, some (0xf0 :: got), false⟩

theorem follows_sysEx_data (data : Bytes) : ∀ {got : Bytes}, Plain data →
    got.length + data.length + 2 ≤ sysexCapacity →
    Follows (withinSysEx got) (markLast (0xf0 :: (got ++ data ++ [0xf7])) (data ++ [0xf7]))
      (idle none) := by
  induction data with
  | nil =>
    intro got _ _
    rw [List.append_nil]
    exact ⟨by decide, idle none, rfl, rfl⟩
  | cons b rest ih =>
    intro got hplain hshort
    rw [List.length_cons] at hshort
    have hb := hplain b List.mem_cons_self
    have hpush : (withinSysEx got).push b = (withinSysEx (got ++ [b]), []) := by
      have hroom : (0xf0 :: got).length + 1 < sysexCapacity := by
        rw [List.length_cons]
        omega
      unfold MidiParser.push withinSysEx
      rw [if_neg (not_realTime_of_lt hb)]
      dsimp only
      rw [if_neg (ne_end_of_lt hb), if_pos hb, if_pos hroom]
      rfl
    have hne : rest ++ [0xf7] ≠ [] := List.append_ne_nil_of_right_ne_nil _ (List.cons_ne_nil _ _)
    have hgot : (got ++ [b]).length + rest.length + 2 ≤ sysexCapacity := by
      rw [List.length_append, List.length_cons, List.length_nil]
      omega
    have hrest := ih (fun d hd => hplain d (List.mem_cons_of_mem _ hd)) hgot
    rw [List.append_assoc got] at hrest
    rw [List.cons_append, markLast_cons _ _ hne]
    exact ⟨not_realTime_of_lt hb, withinSysEx (got ++ [b]), hpush, hrest⟩

theorem follows_sysEx {data : Bytes} (plain : Plain data)
    (short : data.length + 2 ≤ sysexCapacity) :
    Follows (idle running)
      (markLast (0xf0 :: (data ++ [0xf7])) (0xf0 :: (data ++ [0xf7]))) (idle none) := by
  have hne : data ++ [0xf7] ≠ [] := List.append_ne_nil_of_right_ne_nil _ (List.cons_ne_nil _ _)
  rw [markLast_cons _ _ hne]
  refine ⟨by decide, withinSysEx [], ?_, ?_⟩
  · rw [push_status running (by decide) (by decide)]
    cases running <;> rfl
  · have hshort : ([] : Bytes).length + data.length + 2 ≤ sysexCapacity := by
      rw [List.length_nil]
      omega
    exact follows_sysEx_data data plain hshort

theorem follows_message (m : Message) (running : Option UInt8) (compact : Bool) :
    Follows (idle running) (markLast m.bytes (m.sent running compact)) (idle m.running) := by
  cases m with
  | channel status data kind length plain =>
    exact follows_channel running compact kind length plain
  | common status data kind length plain => exact follows_common running kind length plain
  | sysEx data plain short => exact follows_sysEx running plain short

def runningAfter : Option UInt8 → List (Message × Bool) → Option UInt8
  | running, [] => running
  | _, (m, _) :: rest => runningAfter m.running rest

variable (messages : List (Message × Bool))

theorem follows_serialise : ∀ running : Option UInt8,
    Follows (idle running) (serialise running messages) (idle (runningAfter running messages)) := by
  induction messages with
  | nil => exact fun _ => rfl
  | cons entry rest ih =>
    intro running
    obtain ⟨m, compact⟩ := entry
    exact (follows_message m running compact).append (ih m.running)

theorem markLast_done (done : Bytes) (bytes : Bytes) (h : bytes ≠ []) :
    (markLast done bytes).flatMap (fun mark => mark.2.toList) = [done] := by
  induction bytes with
  | nil => exact absurd rfl h
  | cons b rest ih =>
    cases rest with
    | nil => rfl
    | cons c more => exact ih (List.cons_ne_nil c more)

theorem Message.sent_ne_nil (m : Message) (running : Option UInt8) (compact : Bool) :
    m.sent running compact ≠ [] := by
  cases m with
  | channel status data kind length plain =>
    rw [Message.sent]
    split_ifs
    · exact channel_data_ne_nil kind length
    · exact List.cons_ne_nil _ _
  | common status data => exact List.cons_ne_nil _ _
  | sysEx data => exact List.cons_ne_nil _ _

/-- The messages of a stream are completed once each, in their order. -/
theorem serialise_done : ∀ running : Option UInt8,
    (serialise running messages).flatMap (fun mark => mark.2.toList) =
      messages.map fun entry => entry.1.bytes := by
  induction messages with
  | nil => exact fun _ => rfl
  | cons entry rest ih =>
    intro running
    obtain ⟨m, compact⟩ := entry
    rw [serialise, List.flatMap_append, markLast_done _ _ (m.sent_ne_nil running compact), ih]
    rfl

def isRealTime : Bytes → Bool
  | [b] => decide (RealTime b)
  | _ => false

theorem Message.not_isRealTime (m : Message) : isRealTime m.bytes = false := by
  cases m with
  | channel status data kind length plain =>
    cases data with
    | nil => exact absurd rfl (channel_data_ne_nil kind length)
    | cons b rest => rfl
  | common status data kind length plain =>
    cases data with
    | nil => exact decide_eq_false (not_realTime_of_le kind.2 (by decide))
    | cons b rest => rfl
  | sysEx data plain short =>
    cases data with
    | nil => rfl
    | cons b rest => rfl

/-- The real-time bytes of a stream come out once each in their order, and so do the messages. -/
theorem expected_split {stream : Bytes} : ∀ {marks : List Mark},
    (∀ mark ∈ marks, ∀ done ∈ mark.2, isRealTime done = false) →
    (stream.filter fun b => ¬ RealTime b) = marks.map Prod.fst →
    ((expected marks stream).filter fun m => !isRealTime m) =
        marks.flatMap (fun mark => mark.2.toList) ∧
      (expected marks stream).filter isRealTime =
        (stream.filter fun b => RealTime b).map fun b => [b] := by
  induction stream with
  | nil =>
    intro marks _ hstream
    cases marks with
    | nil => exact ⟨rfl, rfl⟩
    | cons mark marks => cases hstream
  | cons b rest ih =>
    intro marks hmarks hstream
    by_cases hreal : RealTime b
    · rw [List.filter_cons_of_neg (by simpa using hreal)] at hstream
      obtain ⟨hplain, hrealTime⟩ := ih hmarks hstream
      have hone : isRealTime [b] = true := decide_eq_true hreal
      rw [expected_realTime marks hreal]
      constructor
      · rw [List.filter_cons_of_neg (by rw [hone]; decide)]
        exact hplain
      · rw [List.filter_cons_of_pos hone, hrealTime,
          List.filter_cons_of_pos (by simpa using hreal), List.map_cons]
    · rw [List.filter_cons_of_pos (by simpa using hreal)] at hstream
      cases marks with
      | nil => cases hstream
      | cons mark marks =>
        obtain ⟨c, done⟩ := mark
        obtain ⟨-, hrest⟩ := List.cons.inj hstream
        obtain ⟨hplain, hrealTime⟩ :=
          ih (fun mark hmark => hmarks mark (List.mem_cons_of_mem _ hmark)) hrest
        rw [expected_mark c done marks hreal, List.filter_cons_of_neg (by simpa using hreal),
          List.flatMap_cons]
        cases done with
        | none => exact ⟨hplain, hrealTime⟩
        | some m =>
          have hm : isRealTime m = false := hmarks (c, some m) List.mem_cons_self m rfl
          constructor
          · show (m :: expected marks rest).filter _ = m :: _
            exact (List.filter_cons_of_pos (by rw [hm]; rfl)).trans (congrArg (m :: ·) hplain)
          · show (m :: expected marks rest).filter _ = _
            rw [List.filter_cons_of_neg (by rw [hm]; decide), hrealTime]

theorem serialise_marks {messages : List (Message × Bool)} {running : Option UInt8} :
    ∀ mark ∈ serialise running messages, ∀ done ∈ mark.2, isRealTime done = false := by
  intro mark hmark done hdone
  have hmem : done ∈ (serialise running messages).flatMap (fun mark => mark.2.toList) :=
    List.mem_flatMap.mpr ⟨mark, hmark, Option.mem_toList.mpr hdone⟩
  rw [serialise_done] at hmem
  obtain ⟨entry, -, rfl⟩ := List.mem_map.mp hmem
  exact entry.1.not_isRealTime

theorem idle_message (hrunning : ∀ status ∈ running, 0x80 ≤ status) :
    (∀ b ∈ (idle running).message, 0x80 ≤ b) ∧ (idle running).sysex = none := by
  refine ⟨?_, idle_sysex running⟩
  cases running with
  | none => exact fun _ h => absurd h List.not_mem_nil
  | some status =>
    intro b hb
    rw [List.mem_singleton.mp hb]
    exact hrunning status rfl

theorem runningAfter_status : ∀ {running : Option UInt8},
    (∀ status ∈ running, 0x80 ≤ status) →
    ∀ status ∈ runningAfter running messages, 0x80 ≤ status := by
  induction messages with
  | nil => exact fun h => h
  | cons entry rest ih =>
    intro running _
    refine ih ?_
    obtain ⟨m, compact⟩ := entry
    cases m with
    | channel status data kind length plain =>
      intro s hs
      cases hs
      exact kind.1
    | common status data => exact nofun
    | sysEx data => exact nofun

/-- Messages sent as bytes, with or without running status where it is legal and with real-time
bytes anywhere, come out in their order; each real-time byte comes out at once, and no data byte is
left over. -/
theorem midi_round_trip (stream : Bytes)
    (hstream : (stream.filter fun b => ¬ RealTime b) = (serialise none messages).map Prod.fst) :
    (MidiParser.reset.feed stream).2 = expected (serialise none messages) stream ∧
      ((MidiParser.reset.feed stream).2.filter fun m => !isRealTime m) =
        messages.map (fun entry => entry.1.bytes) ∧
      (MidiParser.reset.feed stream).2.filter isRealTime =
        (stream.filter fun b => RealTime b).map (fun b => [b]) ∧
      (∀ b ∈ (MidiParser.reset.feed stream).1.message, 0x80 ≤ b) ∧
      (MidiParser.reset.feed stream).1.sysex = none := by
  have hfeed : MidiParser.reset.feed stream =
      (idle (runningAfter none messages), expected (serialise none messages) stream) :=
    (follows_serialise messages none).feed_eq hstream
  obtain ⟨hplain, hrealTime⟩ := expected_split serialise_marks hstream
  have hnone : ∀ status ∈ (none : Option UInt8), 0x80 ≤ status := nofun
  obtain ⟨hmessage, hsysex⟩ := idle_message _ (runningAfter_status messages hnone)
  rw [hfeed]
  refine ⟨rfl, ?_, hrealTime, hmessage, hsysex⟩
  rw [hplain, serialise_done]

def twoNotes : List (Message × Bool) :=
  [(.channel 0x90 [60, 64] (by decide) (by decide) (plain_of_all (by decide)), false),
    (.channel 0x90 [62, 64] (by decide) (by decide) (plain_of_all (by decide)), true),
    (.sysEx [1, 2] (plain_of_all (by decide)) (by decide), false)]

/-- A clock byte inside the second note and an active-sensing byte inside the SysEx. -/
theorem two_notes_round_trip :
    (MidiParser.reset.feed
      [0x90, 60, 64, 62, 0xf8, 64, 0xf0, 1, 0xfe, 2, 0xf7]).2 =
      [[0x90, 60, 64], [0xf8], [0x90, 62, 64], [0xfe], [0xf0, 1, 2, 0xf7]] :=
  (midi_round_trip twoNotes [0x90, 60, 64, 62, 0xf8, 64, 0xf0, 1, 0xfe, 2, 0xf7] (by decide)).1.trans
    (by decide)

end IzarraVM.Midi
