import IzarraVM.Keyboard
import IzarraVM.StepRuns

/-! The controller's three countdowns: a span of time is the sum of its ticks. -/
namespace IzarraVM.Kbc

namespace Mouse

variable (m : Mouse)

theorem sample_prefix : m.queue <+: m.sample.2.queue := by
  unfold sample queueMovement
  dsimp only
  split_ifs
  all_goals first
    | exact List.prefix_rfl
    | exact List.prefix_append _ _

theorem setReporting_queue (on : Bool) : (m.setReporting on).queue = m.queue := by
  cases on <;> rfl

theorem setSampleRate_queue (rate : Byte) : (m.setSampleRate rate).queue = m.queue := by
  unfold setSampleRate
  dsimp only
  split_ifs
  · rfl
  · rfl

/-- A reply goes behind what is queued. -/
theorem prefix_reply {m' : Mouse} (h : m'.queue = m.queue) (bytes : List Byte) :
    m.queue <+: (m'.reply bytes).queue := by
  show m.queue <+: m'.queue ++ bytes
  rw [h]
  exact List.prefix_append _ _

theorem writeByte_prefix (value : Byte) : m.queue <+: (m.writeByte value).queue := by
  unfold writeByte
  split
  · dsimp only
    split_ifs
    · apply m.prefix_reply
      exact setSampleRate_queue _ value
    · exact m.prefix_reply rfl _
    · exact m.prefix_reply rfl _
  · split_ifs
    · exact m.prefix_reply (m.setReporting_queue false) _
    · exact m.prefix_reply (m.setReporting_queue false) _
    · exact m.prefix_reply rfl _
    · exact m.prefix_reply (m.setReporting_queue false) _
    all_goals exact m.prefix_reply rfl _

end Mouse

namespace Keyboard

def Later (old new : Option ℕ) : Prop := new = old ∨ ∃ t, 0 < t ∧ new = some t

theorem Later.trans {a b c : Option ℕ} (hab : Later a b) (hbc : Later b c) : Later a c := by
  rcases hbc with rfl | hset
  · exact hab
  · exact Or.inr hset

structure Untimed (k k' : Keyboard) : Prop where
  pendingInput : k'.pendingInput = k.pendingInput
  inputTicks : k'.inputTicks = k.inputTicks
  deviceByteTicks : Later k.deviceByteTicks k'.deviceByteTicks
  mouseSampleTicks : Later k.mouseSampleTicks k'.mouseSampleTicks

namespace Untimed

theorem refl (k : Keyboard) : k.Untimed k := ⟨rfl, rfl, Or.inl rfl, Or.inl rfl⟩

theorem trans {a b c : Keyboard} (hab : a.Untimed b) (hbc : b.Untimed c) : a.Untimed c :=
  ⟨hbc.pendingInput.trans hab.pendingInput, hbc.inputTicks.trans hab.inputTicks,
    hab.deviceByteTicks.trans hbc.deviceByteTicks, hab.mouseSampleTicks.trans hbc.mouseSampleTicks⟩

theorem ite {k a b : Keyboard} {c : Prop} [Decidable c] (ha : k.Untimed a) (hb : k.Untimed b) :
    k.Untimed (if c then a else b) := by
  split_ifs
  · exact ha
  · exact hb

/-- The first of two operations is read off the second. -/
theorem after {a b c : Keyboard} (hbc : b.Untimed c) (hab : a.Untimed b) : a.Untimed c := hab.trans hbc

end Untimed

variable (k : Keyboard)

/-- Starting a countdown changes nothing else. -/
theorem schedule_eq (ticks : ℕ) : ∃ d, Later k.deviceByteTicks d ∧
    k.scheduleDeviceByteAt ticks = { k with deviceByteTicks := d } := by
  unfold scheduleDeviceByteAt
  split_ifs
  · exact ⟨_, Or.inr ⟨_, saturatingAdd64_pos _ (by decide), rfl⟩, rfl⟩
  · exact ⟨_, Or.inl rfl, rfl⟩

theorem armCurrentOutput_eq : ∃ irq irq12,
    k.armCurrentOutput = { k with irqArmed := irq, irq12Armed := irq12 } := by
  unfold armCurrentOutput
  split_ifs
  all_goals exact ⟨_, _, rfl⟩

theorem untimed_latchReady : k.Untimed k.latchReadyDeviceByte := by
  unfold latchReadyDeviceByte
  split_ifs
  · exact .refl k
  · split
    · exact { Untimed.refl k with }
    · split
      · exact { Untimed.refl k with }
      · exact .refl k

theorem untimed_latchIfReady : k.Untimed k.latchIfReady := by
  unfold latchIfReady
  split_ifs
  · exact k.untimed_latchReady
  · exact .refl k

theorem samplePeriodTicks_pos (m : Mouse) : 0 < m.samplePeriodTicks := by
  have hrate := m.sampleRate.isLt
  have hle : max m.sampleRate.toNat 1 ≤ 255 := by omega
  exact Nat.div_pos (Nat.le_trans hle (by decide)) (by omega)

theorem kickMouseSample_eq : k.kickMouseSample = k ∨
    ∃ d t, Later k.deviceByteTicks d ∧ Later k.mouseSampleTicks t ∧ k.kickMouseSample =
      { k with mouse := k.mouse.sample.2, deviceByteTicks := d, mouseSampleTicks := t } := by
  unfold kickMouseSample
  split_ifs
  · exact Or.inl rfl
  · obtain ⟨d, hd, heq⟩ := { k with mouse := k.mouse.sample.2 }.schedule_eq 0
    have hperiod : Later k.mouseSampleTicks (some k.mouse.sample.2.samplePeriodTicks) :=
      Or.inr ⟨_, samplePeriodTicks_pos _, rfl⟩
    dsimp only [scheduleDeviceByte]
    rw [heq]
    right
    split_ifs
    · exact ⟨d, _, hd, hperiod, rfl⟩
    · exact ⟨d, _, hd, Or.inl rfl, rfl⟩
    · exact ⟨_, _, Or.inl rfl, hperiod, rfl⟩
    · exact ⟨_, _, Or.inl rfl, Or.inl rfl, rfl⟩

/-- What the devices and the controller take in: bytes to their queues, settings and countdowns. -/
inductive Takes (k : Keyboard) : Keyboard → Prop where
  | intro {queue : List Byte} {mouse : Mouse} {commandByte outputPort scanSet : Byte}
      {command data : Option Byte} {irq irq12 : Bool} {device sample : Option ℕ}
      (hqueue : k.queue <+: queue) (hmouse : k.mouse.queue <+: mouse.queue)
      (hdevice : Later k.deviceByteTicks device) (hsample : Later k.mouseSampleTicks sample) :
      k.Takes { k with
        queue, mouse, commandByte, outputPort, scanSet
        expectingCommandData := command
        kbdExpectingData := data
        irqArmed := irq
        irq12Armed := irq12
        deviceByteTicks := device
        mouseSampleTicks := sample }

variable {k} in
theorem Takes.untimed {k' : Keyboard} (h : k.Takes k') : k.Untimed k' := by
  cases h with
  | intro _ _ hdevice hsample => exact ⟨rfl, rfl, hdevice, hsample⟩

/-- The first of two operations is read off the second. -/
theorem Takes.after {a b c : Keyboard} (hbc : b.Takes c) (hab : a.Takes b) : a.Takes c := by
  obtain ⟨hqueue, hmouse, hdevice, hsample⟩ := hab
  obtain ⟨hqueue', hmouse', hdevice', hsample'⟩ := hbc
  exact .intro (hqueue.trans hqueue') (hmouse.trans hmouse') (hdevice.trans hdevice')
    (hsample.trans hsample')

theorem takes_schedule (ticks : ℕ) : k.Takes (k.scheduleDeviceByteAt ticks) := by
  obtain ⟨d, hd, heq⟩ := k.schedule_eq ticks
  rw [heq]
  exact .intro List.prefix_rfl List.prefix_rfl hd (Or.inl rfl)

theorem takes_armCurrentOutput : k.Takes k.armCurrentOutput := by
  obtain ⟨irq, irq12, heq⟩ := k.armCurrentOutput_eq
  rw [heq]
  exact .intro List.prefix_rfl List.prefix_rfl (Or.inl rfl) (Or.inl rfl)

theorem takes_kickMouseSample : k.Takes k.kickMouseSample := by
  rcases k.kickMouseSample_eq with heq | ⟨d, t, hd, ht, heq⟩
  · rw [heq]
    exact .intro List.prefix_rfl List.prefix_rfl (Or.inl rfl) (Or.inl rfl)
  · rw [heq]
    exact .intro List.prefix_rfl k.mouse.sample_prefix hd ht

theorem takes_pushScancodes (codes : List Byte) : k.Takes (k.pushScancodes codes) :=
  (takes_schedule _ 0).after
    (.intro (List.prefix_append _ _) List.prefix_rfl (Or.inl rfl) (Or.inl rfl))

theorem takes_writeKeyboardByte (value : Byte) : k.Takes (k.writeKeyboardByte value) := by
  unfold writeKeyboardByte
  split
  · have hack : k.queue <+: k.queue ++ [0xfa#8] := List.prefix_append _ _
    dsimp only
    split_ifs
    · exact (takes_schedule _ 0).after (.intro (hack.trans (List.prefix_append _ _)) List.prefix_rfl
        (Or.inl rfl) (Or.inl rfl))
    all_goals
      exact (takes_schedule _ 0).after (.intro hack List.prefix_rfl (Or.inl rfl) (Or.inl rfl))
  · split_ifs
    all_goals first
      | exact k.takes_pushScancodes _
      | exact (takes_pushScancodes _ _).after
          (.intro List.prefix_rfl List.prefix_rfl (Or.inl rfl) (Or.inl rfl))

theorem takes_processData (value : Byte) : k.Takes (k.processData value) := by
  unfold processData
  split
  · dsimp only
    split_ifs
    · exact (takes_armCurrentOutput _).after
        (.intro List.prefix_rfl List.prefix_rfl (Or.inl rfl) (Or.inl rfl))
    · exact (takes_kickMouseSample _).after
        (.intro List.prefix_rfl (k.mouse.writeByte_prefix value) (Or.inl rfl) (Or.inl rfl))
    all_goals exact .intro List.prefix_rfl List.prefix_rfl (Or.inl rfl) (Or.inl rfl)
  · exact k.takes_writeKeyboardByte value

theorem untimed_pushBack : k.Untimed k.pushBack := by
  unfold pushBack
  split
  · split_ifs
    all_goals exact { Untimed.refl k with }
  · exact .refl k

theorem untimed_respondController (response : Byte) : k.Untimed (k.respondController response) :=
  { k.untimed_pushBack with }

theorem untimed_processCommand (value : Byte) : k.Untimed (k.processCommand value) := by
  have hrespond := k.untimed_respondController
  unfold processCommand
  -- the commands that answer, then the ones that await data or set a mask, then the rest
  refine .ite (hrespond _) (.ite (hrespond _) (.ite (hrespond _) (.ite ?_ (.ite ?_ (.ite ?_
    (.ite ?_ (.ite ?_ (.ite (hrespond _) (.ite (hrespond _) (.ite (hrespond _) (.refl k)))))))))))
  all_goals exact { Untimed.refl k with }

theorem untimed_processInput (input : PendingInput) : k.Untimed (k.processInput input) := by
  have haccepted : k.Untimed { k with status := k.status &&& ~~~statusIbf } := { Untimed.refl k with }
  have hsettled (k' : Keyboard) : k'.Untimed k'.latchIfReady.scheduleDeviceByte :=
    (untimed_latchIfReady _).trans (takes_schedule _ 0).untimed
  cases input with
  | command value => exact (haccepted.trans (untimed_processCommand _ value)).trans (hsettled _)
  | data value => exact (haccepted.trans (takes_processData _ value).untimed).trans (hsettled _)

structure Timed (k : Keyboard) : Prop where
  input : k.pendingInput.isSome → 0 < k.inputTicks
  device : ∀ t, k.deviceByteTicks = some t → 0 < t
  sample : ∀ t, k.mouseSampleTicks = some t → 0 < t

theorem Later.pos {old new : Option ℕ} (h : Later old new) (hold : ∀ t, old = some t → 0 < t) :
    ∀ t, new = some t → 0 < t := by
  rintro t rfl
  rcases h with hkept | ⟨t', hpos, hset⟩
  · exact hold t hkept.symm
  · cases hset
    exact hpos

variable {k}

theorem Timed.untimed {k' : Keyboard} (h : k.Timed) (hk : k.Untimed k') : k'.Timed where
  input hpending := by
    rw [hk.inputTicks]
    rw [hk.pendingInput] at hpending
    exact h.input hpending
  device := hk.deviceByteTicks.pos h.device
  sample := hk.mouseSampleTicks.pos h.sample

/-- The next event is at the least of the countdowns that run. -/
theorem ticksUntilEvent_least {t : ℕ} (h : k.ticksUntilEvent = some t) :
    (k.pendingInput.isSome → t ≤ k.inputTicks) ∧ (∀ d, k.deviceByteTicks = some d → t ≤ d) ∧
      (∀ m, k.mouseSampleTicks = some m → t ≤ m) ∧
      (k.pendingInput.isSome ∧ k.inputTicks = t ∨ k.deviceByteTicks = some t ∨
        k.mouseSampleTicks = some t) := by
  unfold ticksUntilEvent at h
  cases hp : k.pendingInput <;> cases hd : k.deviceByteTicks <;> cases hm : k.mouseSampleTicks <;>
    rw [hp, hd, hm] at h <;>
    simp only [Option.map_none, Option.map_some, minTicks, Option.some.injEq, reduceCtorEq] at h <;>
    simp <;> omega

theorem ticksUntilEvent_pos (hk : k.Timed) {t : ℕ} (h : k.ticksUntilEvent = some t) : 0 < t := by
  obtain ⟨-, -, -, ⟨hpending, rfl⟩ | hdevice | hsample⟩ := ticksUntilEvent_least h
  · exact hk.input hpending
  · exact hk.device t hdevice
  · exact hk.sample t hsample

theorem ticksUntilEvent_eq_none (h : k.ticksUntilEvent = none) :
    k.pendingInput = none ∧ k.deviceByteTicks = none ∧ k.mouseSampleTicks = none := by
  unfold ticksUntilEvent at h
  cases hp : k.pendingInput <;> cases hd : k.deviceByteTicks <;> cases hm : k.mouseSampleTicks <;>
    simp [hp, hd, hm, minTicks] at h ⊢

theorem ticksUntilEvent_elapse {t n : ℕ} (h : k.ticksUntilEvent = some t) (hlt : n < t) :
    (k.elapse n).ticksUntilEvent = some (t - n) := by
  unfold ticksUntilEvent elapse at *
  cases hp : k.pendingInput <;> cases hd : k.deviceByteTicks <;> cases hm : k.mouseSampleTicks <;>
    rw [hp, hd, hm] at h <;>
    simp only [Option.map_none, Option.map_some, minTicks, Option.some.injEq, reduceCtorEq] at h <;>
    simp [minTicks] <;> omega

theorem elapse_elapse (a b : ℕ) : (k.elapse a).elapse b = k.elapse (a + b) := by
  unfold elapse
  cases hp : k.pendingInput <;> cases hd : k.deviceByteTicks <;> cases hm : k.mouseSampleTicks <;>
    simp [Nat.sub_sub]

theorem timed_elapse {t n : ℕ} (h : k.ticksUntilEvent = some t) (hlt : n < t) :
    (k.elapse n).Timed := by
  obtain ⟨hinput, hdevice, hsample, -⟩ := ticksUntilEvent_least h
  refine ⟨fun hpending => ?_, fun d hd => ?_, fun m hm => ?_⟩
  · have hwaiting : k.pendingInput.isSome := hpending
    have hle := hinput hwaiting
    show 0 < (if k.pendingInput.isSome then k.inputTicks - n else k.inputTicks)
    rw [if_pos hwaiting]
    omega
  · obtain ⟨d', hd', rfl⟩ := Option.map_eq_some_iff.mp hd
    have hle := hdevice d' hd'
    omega
  · obtain ⟨m', hm', rfl⟩ := Option.map_eq_some_iff.mp hm
    have hle := hsample m' hm'
    omega

theorem inputDue_of_idle (h : k.inputTicks = 0 → k.pendingInput = none) : k.inputDue = k := by
  unfold inputDue
  split
  · next input hticks hpending =>
    rw [h hticks] at hpending
    cases hpending
  · rfl

theorem deviceDue_of_ne (h : k.deviceByteTicks ≠ some 0) : k.deviceDue = k := if_neg h

theorem deviceDue_input (k : Keyboard) :
    k.deviceDue.pendingInput = k.pendingInput ∧ k.deviceDue.inputTicks = k.inputTicks := by
  unfold deviceDue
  split_ifs
  · exact ⟨(untimed_latchReady _).pendingInput, (untimed_latchReady _).inputTicks⟩
  · exact ⟨rfl, rfl⟩

/-- Whatever has run out is set anew or stopped. -/
theorem timed_fire (k : Keyboard) : k.fire.Timed := by
  -- the input is through, or it is ahead
  have hinput : k.inputDue.pendingInput.isSome → 0 < k.inputDue.inputTicks := by
    unfold inputDue
    split
    · next input _ _ =>
      rw [(untimed_processInput { k with pendingInput := none } input).pendingInput]
      exact nofun
    · next hnone =>
      intro hpending
      obtain ⟨input, hsome⟩ := Option.isSome_iff_exists.mp hpending
      exact Nat.pos_of_ne_zero fun hzero => hnone input hzero hsome
  -- the device's byte is latched, or it is ahead
  have hdevice : ∀ t, k.inputDue.deviceDue.deviceByteTicks = some t → 0 < t := by
    unfold deviceDue
    split_ifs with hdue
    · refine (untimed_latchReady _).deviceByteTicks.pos ?_
      exact nofun
    · intro t ht
      exact Nat.pos_of_ne_zero fun hzero => hdue (by rw [ht, hzero])
  have hsame := k.inputDue.deviceDue_input
  have hsampled : k.inputDue.deviceDue.sampleDue.Timed := by
    unfold sampleDue
    split_ifs with hdue
    · refine ⟨?_, hdevice, fun t ht => ?_⟩
      · dsimp only
        rw [hsame.1, hsame.2]
        exact hinput
      · dsimp only at ht
        split_ifs at ht
        cases ht
        exact samplePeriodTicks_pos _
    · refine ⟨?_, hdevice, fun t ht => ?_⟩
      · rw [hsame.1, hsame.2]
        exact hinput
      · exact Nat.pos_of_ne_zero fun hzero => hdue (by rw [ht, hzero])
  exact hsampled.untimed (takes_schedule _ 0).untimed

/-- The controller's countdowns obey the laws of countdowns. -/
theorem countdown_lawful : countdown.Lawful Timed where
  pos _ _ hk h := ticksUntilEvent_pos hk h
  next_elapse _ _ _ _ h hlt := ticksUntilEvent_elapse h hlt
  elapse_elapse _ a b := elapse_elapse a b
  elapse _ _ _ _ h hlt := timed_elapse h hlt
  fire _ _ _ _ := timed_fire _

theorem timed_powerOn : powerOn.Timed := ⟨nofun, nofun, nofun⟩

/-- Every event leaves the countdowns ahead. -/
theorem Timed.step (hk : k.Timed) (e : Event) : (k.step e).Timed := by
  cases e with
  | readPort port prefixTicks =>
    simp only [Keyboard.step, readPortAt]
    split_ifs
    · apply hk.untimed
      apply (takes_schedule _ prefixTicks).untimed.after
      exact (untimed_latchIfReady _).after { Untimed.refl k with }
    · exact hk
    · exact hk
  | writePort port value prefixTicks =>
    have hinput : 0 < saturatingAdd64 prefixTicks controllerInputTicks :=
      saturatingAdd64_pos _ (by decide)
    simp only [Keyboard.step, writePortAt]
    split_ifs
    · exact hk
    · exact ⟨fun _ => hinput, hk.device, hk.sample⟩
    · exact ⟨fun _ => hinput, hk.device, hk.sample⟩
    · exact hk
  | pushScancodes codes => exact hk.untimed (takes_pushScancodes _ codes).untimed
  | injectMouse dx dy buttons | injectMouseWheel dz | setMouseReporting on =>
    exact hk.untimed ((takes_kickMouseSample _).untimed.after { Untimed.refl k with })
  | enableMouseWheel | setMouseSampleRateCode code | setA20 enabled =>
    exact hk.untimed { Untimed.refl k with }
  | setMouseIrq on =>
    cases on with
    | true =>
      exact hk.untimed (((takes_armCurrentOutput _).untimed.trans
        ((untimed_latchIfReady _).trans (takes_schedule _ 0).untimed)).after { Untimed.refl k with })
    | false => exact hk.untimed { Untimed.refl k with }
  | advance ticks => exact countdown_lawful.advance_keep ticks hk

theorem timed_of_run (events : List Event) : (Runs.exec Keyboard.step events powerOn).Timed :=
  List.foldlRecOn events Keyboard.step timed_powerOn fun _ h e _ => h.step e

def shown (k : Keyboard) : List Byte × List Byte × Option Byte × Byte × Bool × Bool :=
  (k.queue, k.mouse.queue, k.output, k.status, k.irqArmed, k.irq12Armed)

theorem shown_before_event {n t : ℕ} (h : k.ticksUntilEvent = some n) (hlt : t < n) :
    (k.advanceMasterTicks t).shown = k.shown := by
  rcases Nat.eq_zero_or_pos t with rfl | hpos
  · rfl
  · -- the countdowns alone have moved
    have hadvance : k.advanceMasterTicks t = k.elapse t := countdown.advance_of_lt h hpos hlt
    rw [hadvance]
    rfl

/-- In every state that the controller gets to, a span of time is the sum of the pieces it is cut
into; nothing is seen to change before the next event, and without one nothing ever does. -/
theorem time_splits (events : List Event) (a b : ℕ) :
    let k := Runs.exec Keyboard.step events powerOn
    (k.advanceMasterTicks a).advanceMasterTicks b = k.advanceMasterTicks (a + b) ∧
      (∀ n, k.ticksUntilEvent = some n → ∀ t < n, (k.advanceMasterTicks t).shown = k.shown) ∧
      (k.ticksUntilEvent = none → ∀ t, (k.advanceMasterTicks t).shown = k.shown) := by
  intro k
  refine ⟨(countdown_lawful.advance_add a b (timed_of_run events)).symm, ?_, ?_⟩
  · intro n hnext t hlt
    exact shown_before_event hnext hlt
  · intro hnone t
    have hsame : k.advanceMasterTicks t = k := countdown.advance_of_none hnone t
    rw [hsame]

end Keyboard

end IzarraVM.Kbc
