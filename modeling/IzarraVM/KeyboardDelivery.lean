import IzarraVM.KeyboardStall

/-! What the guest reads from the data port: three streams of bytes, each in its order. -/
namespace IzarraVM.Kbc

inductive Source where
  | keyboard
  | mouse
  | controller
  deriving DecidableEq, Repr

structure Returned where
  source : Source
  byte : Byte
  aux : Bool
  deriving DecidableEq, Repr

namespace Keyboard

variable (k : Keyboard)

def auxBit : Bool := k.status &&& statusAux ≠ 0

def waiting : Source → List Byte
  | .keyboard => k.queue
  | .mouse => k.mouse.queue
  | .controller => []

def response (value : Byte) : Option Byte :=
  if value = 0xaa#8 then some 0x55#8
  else if value = 0xab#8 ∨ value = 0xa9#8 then some 0x00#8
  else if value = 0x20#8 then some k.commandByte
  else if value = 0xd0#8 then some k.outputPort
  else if value = 0xc0#8 then some 0xa0#8
  else if value = 0xe0#8 then some 0x03#8
  else none

def accept : Keyboard :=
  { k with pendingInput := none, status := k.status &&& ~~~statusIbf }

end Keyboard

structure Ledger where
  placed : Source → List Byte
  returned : List Returned
  answered : Bool

namespace Ledger

def empty : Ledger := ⟨fun _ => [], [], false⟩

variable (l : Ledger)

def feed (k k' : Keyboard) : Ledger :=
  { l with placed := fun src => l.placed src ++ (k'.waiting src).drop (k.waiting src).length }

def respond (response : Byte) : Ledger :=
  { l with
    placed := Function.update l.placed .controller (l.placed .controller ++ [response])
    answered := true }

variable (k : Keyboard)

def source : Source :=
  if l.answered then .controller else if k.outputIsAux then .mouse else .keyboard

def read (value : Byte) : Ledger :=
  if k.obf then
    { l with returned := l.returned ++ [⟨l.source k, value, k.auxBit⟩], answered := false }
  else l

def inputDue : Ledger :=
  match k.inputTicks, k.pendingInput with
  | 0, some (.command value) =>
    match k.response value with
    | some response => l.respond response
    | none => l
  | 0, some (.data value) => l.feed k.accept (k.accept.processData value)
  | _, _ => l

def fire : Ledger :=
  (l.inputDue k).feed k.inputDue.deviceDue k.inputDue.deviceDue.sampleDue

def bytes (src : Source) : List Byte := (l.returned.filter (·.source = src)).map (·.byte)

def held (src : Source) : List Byte :=
  if k.obf = true ∧ l.source k = src then [k.output.getD 0] else []

end Ledger

structure Logged where
  kbc : Keyboard
  ledger : Ledger

namespace Logged

def powerOn : Logged := ⟨.powerOn, .empty⟩

def countdown : Countdown Logged where
  next s := s.kbc.ticksUntilEvent
  elapse ticks s := { s with kbc := s.kbc.elapse ticks }
  fire s := ⟨s.kbc.fire, s.ledger.fire s.kbc⟩

def step (s : Logged) : Event → Logged
  | .readPort port ticks =>
    let (value, kbc) := s.kbc.readPortAt port ticks
    ⟨kbc, if port = 0x60 then s.ledger.read s.kbc (value.getD 0) else s.ledger⟩
  | .setMouseIrq on => ⟨s.kbc.setMouseIrq on, s.ledger⟩
  | .advance ticks => countdown.advance ticks s
  | e => ⟨s.kbc.step e, s.ledger.feed s.kbc (s.kbc.step e)⟩

/-- The ledger watches: the controller does what it does without it. -/
theorem step_kbc (s : Logged) (e : Event) : (s.step e).kbc = s.kbc.step e := by
  cases e with
  | advance ticks =>
    exact countdown.advance_map Logged.kbc (fun _ => rfl) (fun _ _ => rfl) (fun _ => rfl) ticks s
  | _ => rfl

structure Delivered (s : Logged) : Prop where
  streams : ∀ src,
    s.ledger.bytes src ++ s.ledger.held s.kbc src ++ s.kbc.waiting src = s.ledger.placed src
  labelled : ∀ r ∈ s.ledger.returned, r.aux = true ↔ r.source = .mouse

structure Consistent (s : Logged) : Prop where
  full : s.kbc.obf = true → s.kbc.output.isSome = true
  aux : s.kbc.auxBit = s.kbc.outputIsAux
  answered : s.ledger.answered = true → s.kbc.obf = true ∧ s.kbc.outputIsAux = false

end Logged

namespace Keyboard

structure Fed (k k' : Keyboard) : Prop where
  obf : k'.obf = k.obf
  output : k'.output = k.output
  outputIsAux : k'.outputIsAux = k.outputIsAux
  auxBit : k'.auxBit = k.auxBit
  queue : k.queue <+: k'.queue
  mouse : k.mouse.queue <+: k'.mouse.queue

namespace Fed

theorem refl (k : Keyboard) : k.Fed k :=
  ⟨rfl, rfl, rfl, rfl, List.prefix_rfl, List.prefix_rfl⟩

/-- The first of two operations is read off the second. -/
theorem after {a b c : Keyboard} (hbc : b.Fed c) (hab : a.Fed b) : a.Fed c :=
  ⟨hbc.obf.trans hab.obf, hbc.output.trans hab.output, hbc.outputIsAux.trans hab.outputIsAux,
    hbc.auxBit.trans hab.auxBit, hab.queue.trans hbc.queue, hab.mouse.trans hbc.mouse⟩

theorem waiting {k k' : Keyboard} (h : k.Fed k') (src : Source) : k.waiting src <+: k'.waiting src := by
  cases src with
  | keyboard => exact h.queue
  | mouse => exact h.mouse
  | controller => exact List.prefix_refl []

end Fed

end Keyboard

namespace Keyboard

variable (k : Keyboard)

theorem Takes.fed {k k' : Keyboard} (h : k.Takes k') : k.Fed k' := by
  cases h with
  | intro hqueue hmouse => exact { Fed.refl k with queue := hqueue, mouse := hmouse }

theorem fed_sampleDue : k.Fed k.sampleDue := by
  unfold sampleDue
  split_ifs
  · exact { Fed.refl k with mouse := k.mouse.sample_prefix }
  · exact .refl k

/-- Status writes that concern the input leave the buffer's flags. -/
theorem fed_status {status : Byte} (hobf : status &&& statusObf = k.status &&& statusObf)
    (haux : status &&& statusAux = k.status &&& statusAux) (input : Option PendingInput) (ticks : ℕ) :
    k.Fed { k with status, pendingInput := input, inputTicks := ticks } := by
  refine ⟨?_, rfl, rfl, ?_, List.prefix_refl _, List.prefix_refl _⟩
  · unfold Keyboard.obf
    rw [hobf]
  · unfold Keyboard.auxBit
    rw [haux]

theorem fed_accept : k.Fed k.accept := by
  have hobf : ∀ v : Byte, v &&& ~~~statusIbf &&& statusObf = v &&& statusObf := by decide
  have haux : ∀ v : Byte, v &&& ~~~statusIbf &&& statusAux = v &&& statusAux := by decide
  exact k.fed_status (hobf _) (haux _) none k.inputTicks

theorem fed_writePort (port : ℕ) (value : Byte) (ticks : ℕ) : k.Fed (k.writePortAt port value ticks) := by
  have hdata : ∀ v : Byte, (v ||| statusIbf) &&& ~~~statusCmd &&& statusObf = v &&& statusObf ∧
      (v ||| statusIbf) &&& ~~~statusCmd &&& statusAux = v &&& statusAux := by decide
  have hcommand : ∀ v : Byte, (v ||| statusIbf ||| statusCmd) &&& statusObf = v &&& statusObf ∧
      (v ||| statusIbf ||| statusCmd) &&& statusAux = v &&& statusAux := by decide
  unfold writePortAt
  split_ifs
  · exact .refl k
  · exact k.fed_status (hdata _).1 (hdata _).2 _ _
  · exact k.fed_status (hcommand _).1 (hcommand _).2 _ _
  · exact .refl k

theorem processCommand_of_response {value response : Byte} (h : k.response value = some response) :
    k.processCommand value = k.respondController response := by
  unfold Keyboard.response at h
  split_ifs at h with hself htest hcommand hport hinput hlines
  · cases h
    rw [hself]
    rfl
  · cases h
    rcases htest with rfl | rfl
    · rfl
    · rfl
  all_goals
    cases h
    subst value
    rfl

theorem processCommand_of_none {value : Byte} (h : k.response value = none) :
    k.Fed (k.processCommand value) ∧ (k.processCommand value).waiting = k.waiting := by
  unfold Keyboard.response at h
  split_ifs at h with hself htest hcommand hport hinput hlines
  unfold processCommand
  rw [if_neg hself, if_neg htest, if_neg hcommand, if_neg hport, if_neg hinput, if_neg hlines]
  split_ifs
  all_goals exact ⟨{ Fed.refl k with }, rfl⟩

end Keyboard

namespace Logged

structure Lossless (s s' : Logged) : Prop where
  consistent : s.Consistent → s'.Consistent
  delivered : s.Consistent → s.Delivered → s'.Delivered

theorem Lossless.refl (s : Logged) : s.Lossless s := ⟨id, fun _ h => h⟩

theorem Lossless.trans {a b c : Logged} (hab : a.Lossless b) (hbc : b.Lossless c) : a.Lossless c :=
  ⟨fun h => hbc.consistent (hab.consistent h),
    fun h hd => hbc.delivered (hab.consistent h) (hab.delivered h hd)⟩

variable {k k' : Keyboard} {l l' : Ledger}

theorem lossless_fed (h : k.Fed k') (l : Ledger) : Lossless ⟨k, l⟩ ⟨k', l.feed k k'⟩ where
  consistent hc := by
    refine ⟨?_, ?_, ?_⟩
    · show k'.obf = true → k'.output.isSome = true
      rw [h.obf, h.output]
      exact hc.full
    · exact h.auxBit.trans (hc.aux.trans h.outputIsAux.symm)
    · show l.answered = true → k'.obf = true ∧ k'.outputIsAux = false
      rw [h.obf, h.outputIsAux]
      exact hc.answered
  delivered _ hd := by
    refine ⟨fun src => ?_, hd.labelled⟩
    have hheld : (l.feed k k').held k' src = l.held k src := by
      unfold Ledger.held Ledger.source
      rw [h.obf, h.output, h.outputIsAux]
      rfl
    have hbefore : l.bytes src ++ l.held k src ++ k.waiting src = l.placed src := hd.streams src
    have hqueued := List.prefix_iff_eq_append.mp (h.waiting src)
    show l.bytes src ++ (l.feed k k').held k' src ++ k'.waiting src =
      l.placed src ++ (k'.waiting src).drop (k.waiting src).length
    rw [hheld, ← hbefore, List.append_assoc _ (k.waiting src), hqueued]

/-- An operation that queues nothing leaves the ledger. -/
theorem lossless_kept (h : k.Fed k') (hwaiting : k'.waiting = k.waiting) (l : Ledger) :
    Lossless ⟨k, l⟩ ⟨k', l⟩ := by
  have hsame : l.feed k k' = l := by
    unfold Ledger.feed
    simp [hwaiting]
  have hfed := lossless_fed h l
  rw [hsame] at hfed
  exact hfed

theorem Consistent.unanswered (hc : Consistent ⟨k, l⟩) (hobf : k.obf = false) :
    l.answered = false := by
  rw [Bool.eq_false_iff]
  intro hanswered
  have hfull : k.obf = true := (hc.answered hanswered).1
  rw [hobf] at hfull
  cases hfull

theorem held_of_empty (hobf : k.obf = false) (src : Source) : l.held k src = [] := by
  unfold Ledger.held
  rw [hobf]
  exact if_neg fun h => Bool.false_ne_true h.1

theorem Delivered.stream (hd : Delivered ⟨k, l⟩) (src : Source) :
    l.bytes src ++ l.held k src ++ k.waiting src = l.placed src := hd.streams src

/-- A source's first byte moves to the empty buffer. -/
theorem lossless_latch {src₀ : Source} {code : Byte} (hobf : k.obf = false) (hfull : k'.obf = true)
    (houtput : k'.output = some code) (haux : k'.auxBit = k'.outputIsAux)
    (hsource : src₀ = if k'.outputIsAux then .mouse else .keyboard)
    (hfirst : k.waiting src₀ = code :: k'.waiting src₀)
    (hrest : ∀ src, src ≠ src₀ → k'.waiting src = k.waiting src) (l : Ledger) :
    Lossless ⟨k, l⟩ ⟨k', l⟩ where
  consistent hc := by
    refine ⟨fun _ => ?_, haux, fun hanswered => ?_⟩
    · show k'.output.isSome = true
      rw [houtput]
      rfl
    · have hnot : l.answered = false := hc.unanswered hobf
      change l.answered = true at hanswered
      rw [hnot] at hanswered
      cases hanswered
  delivered hc hd := by
    refine ⟨fun src => ?_, hd.labelled⟩
    have hnow : l.source k' = src₀ := by
      rw [Ledger.source, hc.unanswered hobf, hsource]
      rfl
    have hbefore := hd.stream src
    rw [held_of_empty hobf, List.append_nil] at hbefore
    show l.bytes src ++ l.held k' src ++ k'.waiting src = l.placed src
    unfold Ledger.held
    rw [hfull, hnow, houtput, ← hbefore]
    by_cases hsrc : src₀ = src
    · subst hsrc
      rw [if_pos ⟨rfl, rfl⟩, hfirst, List.append_assoc]
      rfl
    · rw [if_neg fun h => hsrc h.2, hrest src fun h => hsrc h.symm, List.append_nil]

theorem lossless_latchReady (k : Keyboard) (l : Ledger) :
    Lossless ⟨k, l⟩ ⟨k.latchReadyDeviceByte, l⟩ := by
  have hclear : ∀ v : Byte, (v ||| statusObf) &&& ~~~statusAux &&& statusAux = 0 := by decide
  have hset : ∀ v : Byte, (v ||| (statusObf ||| statusAux)) &&& statusAux ≠ 0 := by decide
  unfold Keyboard.latchReadyDeviceByte
  split_ifs with hobf
  · exact .refl _
  · rw [Bool.not_eq_true] at hobf
    split
    · next code rest _ hqueue =>
      have haux : (k.latchKeyboard code rest).auxBit = false :=
        decide_eq_false fun h => h (hclear k.status)
      apply lossless_latch hobf (Keyboard.obf_latchKeyboard code rest) rfl haux rfl hqueue
      intro src hsrc
      cases src with
      | keyboard => exact absurd rfl hsrc
      | mouse => rfl
      | controller => rfl
    · split
      · next code rest _ hqueue =>
        have haux : (k.latchAux code rest).auxBit = true := decide_eq_true (hset k.status)
        apply lossless_latch hobf (Keyboard.obf_latchAux code rest) rfl haux rfl hqueue
        intro src hsrc
        cases src with
        | keyboard => rfl
        | mouse => exact absurd rfl hsrc
        | controller => rfl
      · exact .refl _

theorem lossless_schedule (k : Keyboard) (l : Ledger) (ticks : ℕ) :
    Lossless ⟨k, l⟩ ⟨k.scheduleDeviceByteAt ticks, l⟩ := by
  obtain ⟨d, -, heq⟩ := k.schedule_eq ticks
  rw [heq]
  apply lossless_kept
  · exact { Keyboard.Fed.refl k with }
  · rfl

/-- What follows a change of the masks or the buffer. -/
theorem lossless_settle (k : Keyboard) (l : Ledger) (ticks : ℕ) :
    Lossless ⟨k, l⟩ ⟨k.latchIfReady.scheduleDeviceByteAt ticks, l⟩ := by
  have hlatched : Lossless ⟨k, l⟩ ⟨k.latchIfReady, l⟩ := by
    unfold Keyboard.latchIfReady
    split_ifs
    · exact lossless_latchReady k l
    · exact .refl _
  exact hlatched.trans (lossless_schedule _ l ticks)

theorem bytes_read (src : Source) :
    (l.read k (k.output.getD 0)).bytes src = l.bytes src ++ l.held k src := by
  unfold Ledger.read Ledger.held
  cases hobf : k.obf with
  | false => simp
  | true =>
    by_cases hsrc : l.source k = src
    · simp [Ledger.bytes, List.filter_append, hsrc]
    · simp [Ledger.bytes, List.filter_append, hsrc]

def taken (k : Keyboard) : Keyboard :=
  { k with status := k.status &&& ~~~(statusObf ||| statusAux), outputIsAux := false }

theorem lossless_read (k : Keyboard) (l : Ledger) :
    Lossless ⟨k, l⟩ ⟨taken k, l.read k (k.output.getD 0)⟩ := by
  have hclear : ∀ v : Byte, v &&& ~~~(statusObf ||| statusAux) &&& statusObf = 0 ∧
      v &&& ~~~(statusObf ||| statusAux) &&& statusAux = 0 := by decide
  have hempty : (taken k).obf = false := decide_eq_false fun h => h (hclear k.status).1
  have haux : (taken k).auxBit = false := decide_eq_false fun h => h (hclear k.status).2
  refine ⟨fun hc => ⟨fun hfull => ?_, haux, fun hanswered => ?_⟩, fun hc hd => ⟨fun src => ?_, ?_⟩⟩
  · change (taken k).obf = true at hfull
    rw [hempty] at hfull
    cases hfull
  · -- the ledger has no unread answer after a read
    exfalso
    change (l.read k (k.output.getD 0)).answered = true at hanswered
    unfold Ledger.read at hanswered
    split_ifs at hanswered with hobf
    exact hobf (hc.answered hanswered).1
  · have hplaced : (l.read k (k.output.getD 0)).placed = l.placed := by
      unfold Ledger.read
      split_ifs
      · rfl
      · rfl
    have hwaiting : (taken k).waiting = k.waiting := rfl
    show (l.read k (k.output.getD 0)).bytes src ++ (l.read k (k.output.getD 0)).held (taken k) src ++
      (taken k).waiting src = (l.read k (k.output.getD 0)).placed src
    rw [bytes_read, held_of_empty hempty, hplaced, hwaiting, List.append_nil, hd.stream]
  · show ∀ r ∈ (l.read k (k.output.getD 0)).returned, r.aux = true ↔ r.source = .mouse
    unfold Ledger.read
    split_ifs
    · intro r hr
      rcases List.mem_append.mp hr with hold | hnew
      · exact hd.labelled r hold
      · rw [List.mem_singleton.mp hnew]
        show k.auxBit = true ↔ l.source k = .mouse
        have hagree : k.auxBit = k.outputIsAux := hc.aux
        have hanswered : l.answered = true → k.obf = true ∧ k.outputIsAux = false := hc.answered
        rw [hagree]
        unfold Ledger.source
        cases hl : l.answered with
        | true => simp [(hanswered hl).2]
        | false => cases k.outputIsAux <;> simp
    · exact hd.labelled

/-- A response takes the buffer, and an unread byte of a device goes back to its queue's front. -/
theorem waiting_respond (hfull : k.obf = true → k.output.isSome = true) (hl : l.answered = false)
    (response : Byte) (src : Source) :
    (k.respondController response).waiting src = l.held k src ++ k.waiting src := by
  have hpushed : (k.respondController response).waiting = k.pushBack.waiting := rfl
  rw [hpushed]
  unfold Keyboard.pushBack Ledger.held Ledger.source
  rw [hl]
  cases hobf : k.obf with
  | false => simp
  | true =>
    obtain ⟨latched, hlatched⟩ := Option.isSome_iff_exists.mp (hfull hobf)
    rw [hlatched]
    cases haux : k.outputIsAux <;> cases src <;> simp [Keyboard.waiting]

theorem consistent_respond (k : Keyboard) (l : Ledger) (response : Byte) :
    Consistent ⟨k.respondController response, l.respond response⟩ := by
  have hset : ∀ v : Byte, (v ||| statusObf) &&& ~~~statusAux &&& statusObf ≠ 0 ∧
      (v ||| statusObf) &&& ~~~statusAux &&& statusAux = 0 := by decide
  have hobf : (k.respondController response).obf = true :=
    decide_eq_true (hset k.pushBack.status).1
  have haux : (k.respondController response).auxBit = false :=
    decide_eq_false fun h => h (hset k.pushBack.status).2
  exact ⟨fun _ => rfl, haux, fun _ => ⟨hobf, rfl⟩⟩

theorem lossless_respond (hl : l.answered = false) (k : Keyboard) (response : Byte) :
    Lossless ⟨k, l⟩ ⟨k.respondController response, l.respond response⟩ := by
  have hafter := consistent_respond k l response
  refine ⟨fun _ => hafter, fun hc hd => ⟨fun src => ?_, hd.labelled⟩⟩
  have hbefore := hd.stream src
  have hfull : (k.respondController response).obf = true := (hafter.answered rfl).1
  have hheld : (l.respond response).held (k.respondController response) src =
      if Source.controller = src then [response] else [] := by
    unfold Ledger.held
    rw [hfull]
    simp [Ledger.source, Ledger.respond, Keyboard.respondController]
  show l.bytes src ++ (l.respond response).held (k.respondController response) src ++
    (k.respondController response).waiting src =
      Function.update l.placed .controller (l.placed .controller ++ [response]) src
  rw [hheld, waiting_respond (k := k) hc.full hl, ← List.append_assoc]
  by_cases hsrc : Source.controller = src
  · -- no device's byte is the controller's
    subst hsrc
    have hnone : l.held k .controller = [] := by
      unfold Ledger.held Ledger.source
      rw [hl]
      cases k.outputIsAux <;> simp
    rw [hnone] at hbefore ⊢
    rw [if_pos rfl, Function.update_self, ← hbefore]
    simp [Keyboard.waiting]
  · rw [if_neg hsrc, List.append_nil, Function.update_of_ne (Ne.symm hsrc), hbefore]

def Overrun (s : Logged) : Prop :=
  (s.ledger.bytes .controller).length + 1 < (s.ledger.placed .controller).length

variable {s : Logged}

theorem Overrun.not_delivered (h : s.Overrun) : ¬ s.Delivered := by
  intro hd
  have hheld : (s.ledger.held s.kbc .controller).length ≤ 1 := by
    unfold Ledger.held
    split_ifs
    · exact Nat.le_refl 1
    · exact Nat.zero_le 1
  have hlength := congrArg List.length (hd.streams .controller)
  simp only [List.length_append] at hlength
  have hnone : (s.kbc.waiting .controller).length = 0 := rfl
  unfold Overrun at h
  omega

/-- A second answer before the first is read. -/
theorem overrun_respond (hl : l.answered = true) (hc : Consistent ⟨k, l⟩) (hd : Delivered ⟨k, l⟩)
    (k' : Keyboard) (response : Byte) : Overrun ⟨k', l.respond response⟩ := by
  have hheld : l.held k .controller = [k.output.getD 0] := by
    unfold Ledger.held Ledger.source
    rw [hl]
    exact if_pos ⟨(hc.answered hl).1, rfl⟩
  show (l.bytes .controller).length + 1 < (Function.update l.placed .controller
    (l.placed .controller ++ [response]) .controller).length
  rw [Function.update_self, ← hd.stream, hheld]
  simp [Keyboard.waiting]

def Answers (value : Byte) : Prop :=
  value ∈ [0xaa#8, 0xab#8, 0xa9#8, 0x20#8, 0xd0#8, 0xc0#8, 0xe0#8]

theorem answers_iff (k : Keyboard) (value : Byte) : Answers value ↔ ∃ r, k.response value = some r := by
  unfold Answers Keyboard.response
  constructor
  · intro hlisted
    simp only [List.mem_cons, List.not_mem_nil, or_false] at hlisted
    split_ifs
    all_goals first
      | exact ⟨_, rfl⟩
      | tauto
  · rintro ⟨r, hr⟩
    split_ifs at hr <;> simp [*]
    tauto

def Overtaken (s : Logged) (ticks : ℕ) : Prop :=
  s.ledger.answered = true ∧ s.kbc.inputTicks ≤ ticks ∧
    ∃ value, s.kbc.pendingInput = some (.command value) ∧ Answers value

def inputDue (s : Logged) : Logged := ⟨s.kbc.inputDue, s.ledger.inputDue s.kbc⟩

theorem inputDue_of_due {k : Keyboard} {input : PendingInput} (hticks : k.inputTicks = 0)
    (hpending : k.pendingInput = some input) :
    k.inputDue = { k with pendingInput := none }.processInput input := by
  unfold Keyboard.inputDue
  split
  · next input' _ hpending' =>
    rw [hpending] at hpending'
    cases hpending'
    rfl
  · next hnone => exact absurd hpending (hnone input hticks)

theorem ledger_inputDue_command {value : Byte} (hticks : k.inputTicks = 0)
    (hpending : k.pendingInput = some (.command value)) :
    l.inputDue k = ((k.response value).map l.respond).getD l := by
  unfold Ledger.inputDue
  rw [hticks, hpending]
  show (match k.response value with
    | some response => l.respond response
    | none => l) = _
  cases k.response value <;> rfl

theorem inputDue_of_response {value response : Byte} (hticks : s.kbc.inputTicks = 0)
    (hpending : s.kbc.pendingInput = some (.command value))
    (hresponse : s.kbc.response value = some response) :
    s.inputDue = ⟨(s.kbc.accept.respondController response).latchIfReady.scheduleDeviceByte,
      s.ledger.respond response⟩ := by
  have haccepted : s.kbc.accept.response value = some response := hresponse
  rw [inputDue, inputDue_of_due hticks hpending, ledger_inputDue_command hticks hpending, hresponse,
    ← Keyboard.processCommand_of_response _ haccepted]
  rfl

theorem inputDue_of_idle (h : s.kbc.inputTicks = 0 → s.kbc.pendingInput = none) :
    s.inputDue = s := by
  have hledger : s.ledger.inputDue s.kbc = s.ledger := by
    unfold Ledger.inputDue
    cases hticks : s.kbc.inputTicks with
    | zero =>
      rw [h hticks]
      rfl
    | succ n => rfl
  rw [inputDue, Keyboard.inputDue_of_idle h, hledger]

/-- The input is processed without loss unless it overtakes an unread answer. -/
theorem lossless_inputDue (h : ¬ s.Overtaken 0) : s.Lossless s.inputDue := by
  by_cases hidle : s.kbc.inputTicks = 0 → s.kbc.pendingInput = none
  · rw [inputDue_of_idle hidle]
    exact .refl s
  obtain ⟨hticks, hsome⟩ := Classical.not_imp.mp hidle
  obtain ⟨input, hpending⟩ := Option.ne_none_iff_exists'.mp hsome
  cases input with
  | data value =>
    have hdue : s.inputDue = ⟨(s.kbc.accept.processData value).latchIfReady.scheduleDeviceByte,
        s.ledger.feed s.kbc.accept (s.kbc.accept.processData value)⟩ := by
      have hledger : s.ledger.inputDue s.kbc =
          s.ledger.feed s.kbc.accept (s.kbc.accept.processData value) := by
        rw [Ledger.inputDue, hticks, hpending]
        rfl
      rw [inputDue, inputDue_of_due hticks hpending, hledger]
      rfl
    rw [hdue]
    exact ((lossless_kept s.kbc.fed_accept rfl s.ledger).trans
      (lossless_fed (Keyboard.takes_processData _ value).fed _)).trans (lossless_settle _ _ 0)
  | command value =>
    have haccept := lossless_kept s.kbc.fed_accept rfl s.ledger
    cases hresponse : s.kbc.response value with
    | some response =>
      rw [inputDue_of_response hticks hpending hresponse]
      have hread : s.ledger.answered = false := by
        rw [Bool.eq_false_iff]
        intro hanswered
        have hanswers := (answers_iff s.kbc value).mpr ⟨response, hresponse⟩
        exact h ⟨hanswered, Nat.le_of_eq hticks, value, hpending, hanswers⟩
      exact (haccept.trans (lossless_respond hread _ response)).trans (lossless_settle _ _ 0)
    | none =>
      have hdue : s.inputDue =
          ⟨(s.kbc.accept.processCommand value).latchIfReady.scheduleDeviceByte, s.ledger⟩ := by
        rw [inputDue, inputDue_of_due hticks hpending, ledger_inputDue_command hticks hpending,
          hresponse]
        rfl
      have hnone : s.kbc.accept.response value = none := hresponse
      obtain ⟨hfed, hwaiting⟩ := s.kbc.accept.processCommand_of_none hnone
      rw [hdue]
      exact (haccept.trans (lossless_kept hfed hwaiting _)).trans (lossless_settle _ _ 0)

theorem consistent_inputDue (hc : s.Consistent) : s.inputDue.Consistent := by
  by_cases h : s.Overtaken 0
  · obtain ⟨-, hticks, value, hpending, hanswers⟩ := h
    obtain ⟨response, hresponse⟩ := (answers_iff s.kbc value).mp hanswers
    rw [inputDue_of_response (Nat.le_zero.mp hticks) hpending hresponse]
    exact (lossless_settle _ _ 0).consistent (consistent_respond _ _ response)
  · exact (lossless_inputDue h).consistent hc

/-- After the input, the device's byte and the sample lose nothing. -/
theorem lossless_afterInput (s : Logged) : s.inputDue.Lossless (countdown.fire s) := by
  have hdevice : s.inputDue.Lossless ⟨s.kbc.inputDue.deviceDue, s.ledger.inputDue s.kbc⟩ := by
    unfold Keyboard.deviceDue
    split_ifs
    · have hready : Lossless s.inputDue
          ⟨{ s.kbc.inputDue with deviceByteTicks := none, deviceByteReady := true },
            s.ledger.inputDue s.kbc⟩ := by
        apply lossless_kept
        · exact { Keyboard.Fed.refl s.kbc.inputDue with }
        · rfl
      exact hready.trans (lossless_latchReady _ _)
    · exact .refl _
  exact (hdevice.trans (lossless_fed (Keyboard.fed_sampleDue _) _)).trans (lossless_schedule _ _ 0)

theorem lossless_elapse (s : Logged) (n : ℕ) : s.Lossless (countdown.elapse n s) := by
  apply lossless_kept
  · exact { Keyboard.Fed.refl s.kbc with }
  · rfl

theorem countdown_lawful : countdown.Lawful fun s => s.kbc.Timed where
  pos _ _ hk h := Keyboard.ticksUntilEvent_pos hk h
  next_elapse _ _ _ _ h hlt := Keyboard.ticksUntilEvent_elapse h hlt
  elapse_elapse s a b := congrArg (Logged.mk · s.ledger) (Keyboard.elapse_elapse a b)
  elapse _ _ _ _ h hlt := Keyboard.timed_elapse h hlt
  fire _ _ _ _ := Keyboard.timed_fire _

theorem Consistent.advance (hk : s.kbc.Timed) (hc : s.Consistent) (ticks : ℕ) :
    (countdown.advance ticks s).Consistent := by
  have hlawful := countdown_lawful.and (Q := Consistent)
    (fun s n h => (lossless_elapse s n).consistent h)
    fun s h => (lossless_afterInput s).consistent (consistent_inputDue h)
  exact (hlawful.advance_keep ticks ⟨hk, hc⟩).2

theorem Overrun.afterInput (h : s.inputDue.Overrun) : (countdown.fire s).Overrun := by
  show ((s.ledger.inputDue s.kbc).bytes .controller).length + 1 <
    ((s.ledger.inputDue s.kbc).placed .controller ++ []).length
  rw [List.append_nil]
  exact h

theorem Overrun.inputDue (h : s.Overrun) : s.inputDue.Overrun := by
  unfold Logged.inputDue Ledger.inputDue
  split
  · split
    · show (s.ledger.bytes .controller).length + 1 < (Function.update s.ledger.placed .controller
        (s.ledger.placed .controller ++ [_]) .controller).length
      rw [Function.update_self, List.length_append]
      exact Nat.lt_add_right _ h
    · exact h
  · show (s.ledger.bytes .controller).length + 1 < (s.ledger.placed .controller ++ []).length
    rw [List.append_nil]
    exact h
  · exact h

theorem Overrun.advance (hk : s.kbc.Timed) (h : s.Overrun) (ticks : ℕ) :
    (countdown.advance ticks s).Overrun := by
  have hlawful := countdown_lawful.and (Q := Overrun) (fun _ _ h => h) fun _ h => h.inputDue.afterInput
  exact (hlawful.advance_keep ticks ⟨hk, h⟩).2

/-- After the input, firing leaves it and the answers alone. -/
theorem overtaken_afterInput (s : Logged) (ticks : ℕ) :
    (countdown.fire s).Overtaken ticks ↔ s.inputDue.Overtaken ticks := by
  have hdevice := s.kbc.inputDue.deviceDue_input
  have hfired : s.kbc.fire.pendingInput = s.kbc.inputDue.deviceDue.pendingInput ∧
      s.kbc.fire.inputTicks = s.kbc.inputDue.deviceDue.inputTicks := by
    obtain ⟨d, -, heq⟩ := s.kbc.inputDue.deviceDue.sampleDue.schedule_eq 0
    rw [Keyboard.fire, Keyboard.scheduleDeviceByte, heq]
    unfold Keyboard.sampleDue
    split_ifs
    · exact ⟨rfl, rfl⟩
    · exact ⟨rfl, rfl⟩
  show _ ∧ s.kbc.fire.inputTicks ≤ _ ∧ (∃ value, s.kbc.fire.pendingInput = _ ∧ _) ↔ _
  rw [hfired.1, hfired.2, hdevice.1, hdevice.2]
  rfl

/-- What overtakes an answer later comes due as much sooner once time has passed. -/
theorem overtaken_elapse {t ticks : ℕ} (hle : t ≤ ticks) :
    (countdown.elapse t s).Overtaken (ticks - t) ↔ s.Overtaken ticks := by
  refine and_congr_right fun _ => and_congr_left ?_
  rintro ⟨value, hcommand, -⟩
  have hwaiting : s.kbc.pendingInput = some (.command value) := hcommand
  show (if s.kbc.pendingInput.isSome then s.kbc.inputTicks - t else _) ≤ ticks - t ↔ _
  rw [hwaiting, Option.isSome_some, if_pos rfl]
  omega

/-- An answer that is not due yet when others fire comes due as much later. -/
theorem overtaken_fire {t ticks : ℕ} (hle : t ≤ ticks)
    (hnow : ¬ (countdown.elapse t s).Overtaken 0) :
    (countdown.fire (countdown.elapse t s)).Overtaken (ticks - t) ↔ s.Overtaken ticks := by
  rw [overtaken_afterInput, ← overtaken_elapse hle]
  by_cases hidle : (s.kbc.elapse t).inputTicks = 0 → (s.kbc.elapse t).pendingInput = none
  · rw [inputDue_of_idle hidle]
  · obtain ⟨hzero, hsome⟩ := Classical.not_imp.mp hidle
    obtain ⟨input, hinput⟩ := Option.ne_none_iff_exists'.mp hsome
    refine iff_of_false ?_ fun hlater => hnow ⟨hlater.1, Nat.le_of_eq hzero, hlater.2.2⟩
    rintro ⟨-, -, value, hcommand, -⟩
    change (s.kbc.elapse t).inputDue.pendingInput = _ at hcommand
    rw [inputDue_of_due hzero hinput, (Keyboard.untimed_processInput _ input).pendingInput] at hcommand
    cases hcommand

/-- A span of time keeps account exactly when no answer overtakes another in it. -/
theorem delivered_advance_iff (ticks : ℕ) : ∀ {s : Logged}, s.kbc.Timed → s.Consistent →
    s.Delivered → ((countdown.advance ticks s).Delivered ↔ ¬ s.Overtaken ticks) := by
  induction ticks using Nat.strongRecOn with
  | ind ticks ih =>
    intro s hk hc hd
    cases hnext : s.kbc.ticksUntilEvent with
    | none =>
      have hidle := (Keyboard.ticksUntilEvent_eq_none hnext).1
      rw [countdown.advance_of_none hnext]
      refine iff_of_true hd ?_
      rintro ⟨-, -, value, hcommand, -⟩
      rw [hidle] at hcommand
      cases hcommand
    | some t =>
      have hpos := Keyboard.ticksUntilEvent_pos hk hnext
      have helapsed := lossless_elapse s t
      by_cases hle : t ≤ ticks
      · rw [countdown_lawful.advance_of_le hk hnext hle]
        by_cases hnow : (countdown.elapse t s).Overtaken 0
        · -- the answer overtakes another here
          have hlater := (overtaken_elapse hle).mp ⟨hnow.1, hnow.2.1.trans (Nat.zero_le _), hnow.2.2⟩
          obtain ⟨hanswered, hzero, value, hcommand, hanswers⟩ := hnow
          obtain ⟨response, hresponse⟩ := (answers_iff (s.kbc.elapse t) value).mp hanswers
          have hover : (countdown.elapse t s).inputDue.Overrun := by
            rw [inputDue_of_response (Nat.le_zero.mp hzero) hcommand hresponse]
            exact overrun_respond hanswered (helapsed.consistent hc) (helapsed.delivered hc hd) _ _
          have hfired := hover.afterInput
          exact iff_of_false (hfired.advance (Keyboard.timed_fire _) _).not_delivered
            (not_not.mpr hlater)
        · have hfired := (lossless_inputDue hnow).trans (lossless_afterInput _)
          have hall := helapsed.trans hfired
          rw [ih (ticks - t) (by omega) (Keyboard.timed_fire _) (hall.consistent hc)
            (hall.delivered hc hd), overtaken_fire hle hnow]
      · have hlate : ¬ s.Overtaken ticks := by
          rintro ⟨-, hdue, value, hcommand, -⟩
          have hleast := (Keyboard.ticksUntilEvent_least hnext).1 (by rw [hcommand]; rfl)
          omega
        refine iff_of_true ?_ hlate
        by_cases hzero : ticks = 0
        · rw [hzero]
          exact hd
        · rw [countdown.advance_of_lt hnext (by omega) (by omega)]
          exact (lossless_elapse s ticks).delivered hc hd

def Clear (s : Logged) : Event → Prop
  | .advance ticks => ¬ s.Overtaken ticks
  | _ => True

/-- Every event but the passing of time keeps account. -/
theorem lossless_step (s : Logged) (e : Event) (h : ∀ ticks, e ≠ .advance ticks) :
    s.Lossless (s.step e) := by
  cases e with
  | readPort port ticks =>
    by_cases hdata : port = 0x60
    · subst hdata
      exact (lossless_read s.kbc s.ledger).trans (lossless_settle _ _ ticks)
    · have hkbc : (s.kbc.readPortAt port ticks).2 = s.kbc := by
        unfold Keyboard.readPortAt
        rw [if_neg hdata]
        split_ifs
        · rfl
        · rfl
      show s.Lossless ⟨(s.kbc.readPortAt port ticks).2, if port = 0x60 then _ else s.ledger⟩
      rw [hkbc, if_neg hdata]
      exact .refl s
  | writePort port value ticks => exact lossless_fed (s.kbc.fed_writePort port value ticks) _
  | pushScancodes codes => exact lossless_fed (s.kbc.takes_pushScancodes codes).fed _
  | injectMouse dx dy buttons | injectMouseWheel dz =>
    apply lossless_fed
    exact (Keyboard.takes_kickMouseSample _).fed.after { Keyboard.Fed.refl s.kbc with }
  | setMouseReporting on =>
    apply lossless_fed
    exact (Keyboard.takes_kickMouseSample _).fed.after
      { Keyboard.Fed.refl s.kbc with mouse := (Mouse.setReporting_queue _ on).symm ▸ List.prefix_rfl }
  | enableMouseWheel | setA20 enabled =>
    apply lossless_fed
    exact { Keyboard.Fed.refl s.kbc with }
  | setMouseSampleRateCode code =>
    apply lossless_fed
    exact { Keyboard.Fed.refl s.kbc with
      mouse := (Mouse.setSampleRateCode_queue _ code).symm ▸ List.prefix_rfl }
  | setMouseIrq on =>
    cases on with
    | true =>
      let masked := { s.kbc with commandByte := s.kbc.commandByte ||| 0x02#8 }
      have harmed : s.Lossless ⟨masked.armCurrentOutput, s.ledger⟩ := by
        obtain ⟨irq, irq12, heq⟩ := masked.armCurrentOutput_eq
        rw [heq]
        apply lossless_kept
        · exact { Keyboard.Fed.refl s.kbc with }
        · rfl
      exact harmed.trans (lossless_settle _ _ 0)
    | false =>
      have hfed : s.kbc.Fed (s.kbc.setMouseIrq false) := { Keyboard.Fed.refl s.kbc with }
      exact lossless_kept hfed rfl _
  | advance ticks => exact absurd rfl (h ticks)

theorem Consistent.step (hk : s.kbc.Timed) (hc : s.Consistent) (e : Event) :
    (s.step e).Consistent := by
  by_cases htime : ∃ ticks, e = .advance ticks
  · obtain ⟨ticks, rfl⟩ := htime
    exact hc.advance hk ticks
  · exact (lossless_step s e fun ticks h => htime ⟨ticks, h⟩).consistent hc

theorem delivered_step_iff (hk : s.kbc.Timed) (hc : s.Consistent) (hd : s.Delivered)
    (e : Event) : (s.step e).Delivered ↔ s.Clear e := by
  by_cases htime : ∃ ticks, e = .advance ticks
  · obtain ⟨ticks, rfl⟩ := htime
    exact delivered_advance_iff ticks hk hc hd
  · have hclear : s.Clear e := by
      cases e with
      | advance ticks => exact absurd ⟨ticks, rfl⟩ htime
      | _ => trivial
    exact iff_of_true ((lossless_step s e fun ticks h => htime ⟨ticks, h⟩).delivered hc hd) hclear

/-- From power-on, in every state of a run each source's bytes were read once and in order, but for
the one in the buffer and those queued, exactly when no answer comes due while another is unread. -/
theorem delivered_throughout_iff (events : List Event) :
    Runs.Throughout Logged.step Delivered events powerOn ↔
      Runs.Along Logged.step Clear events powerOn := by
  apply Runs.throughout_iff (J := fun s => s.kbc.Timed ∧ s.Consistent) (W := fun _ _ => True)
  · intro s e hJ _ _
    refine ⟨?_, hJ.2.step hJ.1 e⟩
    rw [step_kbc]
    exact hJ.1.step e
  · intro s e hJ hd _
    exact delivered_step_iff hJ.1 hJ.2 hd e
  · exact ⟨Keyboard.timed_powerOn, ⟨nofun, rfl, nofun⟩⟩
  · refine ⟨fun src => ?_, nofun⟩
    cases src with
    | keyboard => rfl
    | mouse => rfl
    | controller => rfl
  · exact Runs.Along.of_forall (fun _ _ => trivial) events powerOn

def twoCommands : List Event :=
  [.writePort 0x64 0xaa#8 0, .advance controllerInputTicks, .writePort 0x64 0x20#8 0,
    .advance controllerInputTicks, .readPort 0x60 0, .readPort 0x60 0]

/-- The second command's answer is read first. -/
theorem answers_swapped :
    let s := Runs.exec Logged.step twoCommands powerOn
    s.ledger.placed .controller = [0x55#8, 0x01#8] ∧
      s.ledger.returned.map (·.byte) = [0x01#8, 0x55#8] := by
  decide +kernel

end Logged

end IzarraVM.Kbc
