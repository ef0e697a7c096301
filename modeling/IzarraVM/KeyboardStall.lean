import IzarraVM.KeyboardClock

/-! When a byte queued by a device that is not masked reaches the output buffer. -/
namespace IzarraVM.Kbc

def Mouse.Sends (m : Mouse) : Prop := m.statePending = true ∧ m.queue = []

instance (m : Mouse) : Decidable m.Sends := inferInstanceAs (Decidable (_ ∧ _))

theorem Mouse.sample_of_sends {m : Mouse} (h : m.Sends) :
    m.sample.1 = true ∧ m.sample.2.queue ≠ [] := by
  obtain ⟨hpending, hqueue⟩ := h
  have hreporting : m.reporting = true := by
    unfold statePending at hpending
    exact (Bool.and_eq_true_iff.mp hpending).1
  unfold sample
  simp [hreporting, hpending, hqueue, queueMovement, packet]

theorem Mouse.sample_of_not_sends {m : Mouse} (h : ¬ m.Sends) :
    m.sample.1 = false ∧ m.sample.2.queue = m.queue := by
  have hstay : !m.statePending ∨ m.queue ≠ [] := by
    by_cases hpending : m.statePending = true
    · exact Or.inr fun hqueue => h ⟨hpending, hqueue⟩
    · exact Or.inl (by simpa using hpending)
  unfold sample
  split_ifs
  · exact ⟨rfl, rfl⟩
  · exact ⟨rfl, rfl⟩

theorem Mouse.sample_queue {m : Mouse} (h : m.queue ≠ []) : m.sample.2.queue = m.queue :=
  (sample_of_not_sends fun hsends => h hsends.2).2

theorem Mouse.setSampleRateCode_queue (m : Mouse) (code : Byte) :
    (m.setSampleRateCode code).2.queue = m.queue := by
  unfold setSampleRateCode
  split
  · exact m.setSampleRate_queue _
  · rfl

namespace Keyboard

def firstByte (k : Keyboard) : Option Byte :=
  (if k.keyboardEnabled then k.queue.head? else none).or
    (if k.auxEnabled then k.mouse.queue.head? else none)

variable {k : Keyboard}

theorem queued_eq_false_iff : k.queuedDeviceByte = false ↔
    (k.keyboardEnabled = true → k.queue = []) ∧ (k.auxEnabled = true → k.mouse.queue = []) := by
  unfold queuedDeviceByte
  cases k.keyboardEnabled <;> cases k.auxEnabled <;> simp

theorem exists_firstByte (h : k.queuedDeviceByte = true) : ∃ b, k.firstByte = some b := by
  unfold queuedDeviceByte at h
  unfold firstByte
  cases hk : k.keyboardEnabled <;> cases ha : k.auxEnabled <;> cases hq : k.queue <;>
    cases hm : k.mouse.queue <;> simp [hk, ha, hq, hm] at h ⊢

variable {k' : Keyboard}

/-- The next byte is not passed by a packet: the mouse sends one only when it has nothing queued. -/
theorem firstByte_sampled {b : Byte} (h : k.firstByte = some b)
    (hcommand : k'.commandByte = k.commandByte) (hqueue : k'.queue = k.queue)
    (hmouse : k'.mouse.queue = k.mouse.sample.2.queue) : k'.firstByte = some b := by
  have hkeyboard : k'.keyboardEnabled = k.keyboardEnabled := by
    unfold keyboardEnabled
    rw [hcommand]
  have haux : k'.auxEnabled = k.auxEnabled := by
    unfold auxEnabled
    rw [hcommand]
  unfold firstByte at h ⊢
  rw [hkeyboard, haux, hqueue, hmouse]
  rcases Option.or_eq_some_iff.mp h with hkey | ⟨hnone, hmoved⟩
  · rw [hkey, Option.some_or]
  · -- the byte is the mouse's, so its queue is not empty
    have hne : k.mouse.queue ≠ [] := by
      rintro hempty
      simp [hempty] at hmoved
    rw [Mouse.sample_queue hne]
    exact h

theorem obf_latchKeyboard (code : Byte) (rest : List Byte) :
    (k.latchKeyboard code rest).obf = true := by
  have hset : ∀ v : Byte, (v ||| statusObf) &&& ~~~statusAux &&& statusObf ≠ 0 := by decide
  exact decide_eq_true (hset k.status)

theorem obf_latchAux (code : Byte) (rest : List Byte) : (k.latchAux code rest).obf = true := by
  have hset : ∀ v : Byte, (v ||| (statusObf ||| statusAux)) &&& statusObf ≠ 0 := by decide
  exact decide_eq_true (hset k.status)

/-- What a latch finds: the buffer full, a byte to take, or none. -/
theorem latchReady_cases :
    (k.obf = true ∧ k.latchReadyDeviceByte = k) ∨
    (k.obf = false ∧ ∃ code, k.firstByte = some code ∧
      k.latchReadyDeviceByte.obf = true ∧ k.latchReadyDeviceByte.output = some code) ∨
    (k.obf = false ∧ k.queuedDeviceByte = false ∧ k.latchReadyDeviceByte = k) := by
  unfold latchReadyDeviceByte firstByte queuedDeviceByte
  cases hobf : k.obf with
  | true => exact Or.inl ⟨rfl, rfl⟩
  | false =>
    cases hk : k.keyboardEnabled <;> cases ha : k.auxEnabled <;> cases hq : k.queue <;>
      cases hm : k.mouse.queue <;> simp [hobf]
    all_goals first
      | exact ⟨obf_latchKeyboard _ _, rfl⟩
      | exact ⟨obf_latchAux _ _, rfl⟩

theorem latchReady_delivers {b : Byte} (hobf : k.obf = false) (hb : k.firstByte = some b) :
    k.latchReadyDeviceByte.obf = true ∧ k.latchReadyDeviceByte.output = some b := by
  rcases k.latchReady_cases with ⟨hfull, -⟩ | ⟨-, code, hcode, hlatched⟩ | ⟨-, hnone, -⟩
  · rw [hobf] at hfull
    cases hfull
  · rw [← hb, hcode]
    exact hlatched
  · obtain ⟨hkeys, hmouse⟩ := queued_eq_false_iff.mp hnone
    unfold firstByte at hb
    split_ifs at hb <;> simp_all

def Stranded (k : Keyboard) : Prop :=
  k.obf = false ∧ k.deviceByteReady = true ∧ k.deviceByteTicks = none ∧ k.pendingInput = none

def Fine (k : Keyboard) : Prop := k.Stranded → k.queuedDeviceByte = false

def Armed (k : Keyboard) : Prop :=
  k.obf = false → k.deviceByteReady = false → k.queuedDeviceByte = true →
    k.deviceByteTicks.isSome = true

def Quiet (k : Keyboard) : Prop :=
  k.obf = false → k.deviceByteReady = true → k.queuedDeviceByte = false

theorem Quiet.fine (h : k.Quiet) : k.Fine := fun hs => h hs.1 hs.2.1

theorem quiet_latchReady : k.latchReadyDeviceByte.Quiet := by
  intro hobf _
  rcases k.latchReady_cases with ⟨hfull, hsame⟩ | ⟨-, code, -, hfull, -⟩ | ⟨-, hnone, hsame⟩
  · rw [hsame, hfull] at hobf
    cases hobf
  · rw [hfull] at hobf
    cases hobf
  · rw [hsame]
    exact hnone

theorem quiet_latchIfReady : k.latchIfReady.Quiet := by
  unfold latchIfReady
  split_ifs with hready
  · exact quiet_latchReady
  · exact fun _ hr => absurd hr hready

/-- Nothing is started over a full buffer, a byte that is ready, or a countdown that runs. -/
theorem schedule_of_busy (h : k.obf = true ∨ k.deviceByteReady = true ∨ k.deviceByteTicks ≠ none)
    (ticks : ℕ) : k.scheduleDeviceByteAt ticks = k := by
  unfold scheduleDeviceByteAt
  rw [if_neg]
  rintro ⟨hobf, hready, hnone, -⟩
  rcases h with h | h | h
  · simp [h] at hobf
  · simp [h] at hready
  · exact h hnone

theorem armed_schedule (ticks : ℕ) : (k.scheduleDeviceByteAt ticks).Armed := by
  unfold scheduleDeviceByteAt
  split_ifs with hidle
  · exact fun _ _ _ => rfl
  · intro hobf hready hqueued
    rw [Option.isSome_iff_ne_none]
    exact fun hnone => hidle ⟨by simp [hobf], by simp [hready], hnone, hqueued⟩

theorem quiet_schedule (h : k.Quiet) (ticks : ℕ) : (k.scheduleDeviceByteAt ticks).Quiet := by
  obtain ⟨d, -, heq⟩ := k.schedule_eq ticks
  rw [heq]
  exact h

/-- Nothing is scheduled while the controller is marked ready, so scheduling mends nothing. -/
theorem fine_schedule_iff (ticks : ℕ) : (k.scheduleDeviceByteAt ticks).Fine ↔ k.Fine := by
  cases hready : k.deviceByteReady with
  | true => rw [schedule_of_busy (.inr (.inl hready))]
  | false =>
    have hnever : ∀ k' : Keyboard, k'.deviceByteReady = false → k'.Fine := by
      intro k' hnot hs
      have hmarked := hs.2.1
      rw [hnot] at hmarked
      cases hmarked
    obtain ⟨d, -, heq⟩ := k.schedule_eq ticks
    rw [heq]
    exact iff_of_true (hnever _ hready) (hnever _ hready)

theorem quiet_processInput (input : PendingInput) : (k.processInput input).Quiet :=
  quiet_schedule quiet_latchIfReady 0

/-- After a sample something is queued if it was before, or if the mouse sends and is not masked. -/
theorem queued_sampled (hcommand : k'.commandByte = k.commandByte)
    (hqueue : k'.queue = k.queue) (hmouse : k'.mouse.queue = k.mouse.sample.2.queue) :
    k'.queuedDeviceByte = true ↔
      k.queuedDeviceByte = true ∨ (k.auxEnabled = true ∧ k.mouse.Sends) := by
  unfold queuedDeviceByte keyboardEnabled auxEnabled
  rw [hcommand, hqueue, hmouse]
  by_cases hsends : k.mouse.Sends
  · have hnew := (Mouse.sample_of_sends hsends).2
    simp [hsends, hnew, hsends.2]
  · rw [(Mouse.sample_of_not_sends hsends).2]
    simp [hsends]

def SampleSafe (k : Keyboard) : Prop := k.Stranded → k.mouse.Sends → k.auxEnabled = false

section

variable (hfine : k.Fine)
include hfine

theorem fine_sampled_iff (hstranded : k'.Stranded ↔ k.Stranded)
    (hcommand : k'.commandByte = k.commandByte) (hqueue : k'.queue = k.queue)
    (hmouse : k'.mouse.queue = k.mouse.sample.2.queue) : k'.Fine ↔ k.SampleSafe := by
  have hiff := queued_sampled hcommand hqueue hmouse
  constructor
  · intro hfine' hs hsends
    have hnone := hfine' (hstranded.mpr hs)
    by_contra haux
    rw [Bool.not_eq_false] at haux
    rw [hiff.mpr (Or.inr ⟨haux, hsends⟩)] at hnone
    cases hnone
  · intro hsafe hs'
    have hs := hstranded.mp hs'
    rw [Bool.eq_false_iff]
    intro hqueued
    rcases hiff.mp hqueued with hold | ⟨haux, hsends⟩
    · rw [hfine hs] at hold
      cases hold
    · rw [hsafe hs hsends] at haux
      cases haux

theorem fine_kick_iff : k.kickMouseSample.Fine ↔ (k.mouseSampleTicks = none → k.SampleSafe) := by
  unfold kickMouseSample
  split_ifs with hrunning
  · refine iff_of_true hfine fun hnone => ?_
    rw [hnone] at hrunning
    cases hrunning
  · -- neither the countdown of the next sample nor a scheduled byte matters here
    have hidle : k.mouseSampleTicks = none := by simpa using hrunning
    have hsampled : ({ k with mouse := k.mouse.sample.2 } : Keyboard).Fine ↔ k.SampleSafe :=
      fine_sampled_iff hfine Iff.rfl rfl rfl rfl
    have hscheduled := (fine_schedule_iff (k := { k with mouse := k.mouse.sample.2 }) 0).trans hsampled
    have hiff : k.SampleSafe ↔ (k.mouseSampleTicks = none → k.SampleSafe) :=
      ⟨fun h _ => h, fun h => h hidle⟩
    rw [← hiff]
    dsimp only
    split_ifs
    · exact hscheduled
    · exact hscheduled
    · exact hsampled
    · exact hsampled

theorem fine_sampleDue_iff : k.sampleDue.Fine ↔ (k.mouseSampleTicks = some 0 → k.SampleSafe) := by
  unfold sampleDue
  split_ifs with hdue
  · rw [hdue]
    simp only [true_imp_iff]
    exact fine_sampled_iff hfine Iff.rfl rfl rfl rfl
  · exact iff_of_true hfine fun h => absurd h hdue

end

def atSample (k : Keyboard) : Keyboard := (k.elapse 1).inputDue.deviceDue

def TickSafe (k : Keyboard) : Prop :=
  k.atSample.mouseSampleTicks = some 0 → k.atSample.SampleSafe

theorem stranded_elapse (n : ℕ) : (k.elapse n).Stranded ↔ k.Stranded := by
  unfold Stranded
  show (k.obf = false ∧ k.deviceByteReady = true ∧ k.deviceByteTicks.map (· - n) = none ∧
    k.pendingInput = none) ↔ _
  rw [Option.map_eq_none_iff]

theorem fine_elapse (hfine : k.Fine) (n : ℕ) : (k.elapse n).Fine :=
  fun hs => hfine ((stranded_elapse n).mp hs)

theorem fine_inputDue (hfine : k.Fine) : k.inputDue.Fine := by
  unfold inputDue
  split
  · exact (quiet_processInput _).fine
  · exact hfine

theorem fine_deviceDue (hfine : k.Fine) : k.deviceDue.Fine := by
  unfold deviceDue
  split_ifs
  · exact quiet_latchReady.fine
  · exact hfine

theorem fine_fire_iff (hfine : k.Fine) : (k.elapse 1).fire.Fine ↔ k.TickSafe := by
  have hbefore : k.atSample.Fine := fine_deviceDue (fine_inputDue (fine_elapse hfine 1))
  exact (fine_schedule_iff 0).trans (fine_sampleDue_iff hbefore)

/-- Where no countdown ends with the next tick, every one of them has more to go. -/
theorem ahead_of_next {n : ℕ} (h : ∀ t, k.ticksUntilEvent = some t → n < t) :
    (k.pendingInput.isSome → n < k.inputTicks) ∧ (∀ d, k.deviceByteTicks = some d → n < d) ∧
      ∀ m, k.mouseSampleTicks = some m → n < m := by
  cases hnext : k.ticksUntilEvent with
  | some t =>
    have hlt := h t hnext
    obtain ⟨hinput, hdevice, hsample, -⟩ := ticksUntilEvent_least hnext
    refine ⟨fun hp => ?_, fun d hd => ?_, fun m hm => ?_⟩
    · exact Nat.lt_of_lt_of_le hlt (hinput hp)
    · exact Nat.lt_of_lt_of_le hlt (hdevice d hd)
    · exact Nat.lt_of_lt_of_le hlt (hsample m hm)
  | none =>
    obtain ⟨hpending, hdevice, hsample⟩ := ticksUntilEvent_eq_none hnext
    simp [hpending, hdevice, hsample]

theorem tickSafe_of_quiet (h : ∀ t, k.ticksUntilEvent = some t → 1 < t) : k.TickSafe := by
  obtain ⟨hinput, hdevice, hsample⟩ := ahead_of_next h
  have hnoInput : (k.elapse 1).inputDue = k.elapse 1 := by
    refine inputDue_of_idle fun hzero => ?_
    by_contra hwaiting
    have hsome : k.pendingInput.isSome := Option.isSome_iff_ne_none.mpr hwaiting
    have hlt := hinput hsome
    have hleft : (if k.pendingInput.isSome then k.inputTicks - 1 else k.inputTicks) = 0 := hzero
    rw [if_pos hsome] at hleft
    omega
  have hnoDevice : (k.elapse 1).deviceDue = k.elapse 1 := by
    refine deviceDue_of_ne fun hzero => ?_
    obtain ⟨d, hd, hleft⟩ := Option.map_eq_some_iff.mp hzero
    have hlt := hdevice d hd
    omega
  intro hdue
  unfold atSample at hdue
  rw [hnoInput, hnoDevice] at hdue
  obtain ⟨m, hm, hleft⟩ := Option.map_eq_some_iff.mp hdue
  have hlt := hsample m hm
  omega

/-- The two kinds of tick: one that ends a countdown, and one that only brings them nearer. -/
theorem tick_cases (hk : k.Timed) :
    (k.ticksUntilEvent = some 1 ∧ k.advanceMasterTicks 1 = (k.elapse 1).fire) ∨
    ((∀ t, k.ticksUntilEvent = some t → 1 < t) ∧ k.advanceMasterTicks 1 = k.elapse 1) := by
  cases hnext : k.ticksUntilEvent with
  | none =>
    refine Or.inr ⟨nofun, (countdown.advance_of_none hnext 1).trans ?_⟩
    -- no countdown runs, so none comes nearer
    obtain ⟨hpending, hdevice, hsample⟩ := ticksUntilEvent_eq_none hnext
    cases k
    cases hpending
    cases hdevice
    cases hsample
    rfl
  | some t =>
    have hpos := ticksUntilEvent_pos hk hnext
    by_cases hone : t = 1
    · subst hone
      refine Or.inl ⟨rfl, ?_⟩
      exact countdown_lawful.advance_of_le hk hnext (Nat.le_refl 1)
    · have hlt : 1 < t := by omega
      refine Or.inr ⟨?_, countdown.advance_of_lt hnext Nat.one_pos hlt⟩
      rintro t' ⟨⟩
      exact hlt

theorem fine_tick_iff (hk : k.Timed) (hfine : k.Fine) :
    (k.advanceMasterTicks 1).Fine ↔ k.TickSafe := by
  rcases tick_cases hk with ⟨-, hfire⟩ | ⟨hquiet, hpassed⟩
  · rw [hfire]
    exact fine_fire_iff hfine
  · rw [hpassed]
    exact iff_of_true (fine_elapse hfine 1) (tickSafe_of_quiet hquiet)

/-- A byte that is left behind stays behind: no tick latches it. -/
theorem stalled_tick (hk : k.Timed) (hs : k.Stranded) (hqueued : k.queuedDeviceByte = true) :
    (k.advanceMasterTicks 1).Stranded ∧ (k.advanceMasterTicks 1).queuedDeviceByte = true := by
  have hs₁ : (k.elapse 1).Stranded := (stranded_elapse 1).mpr hs
  rcases tick_cases hk with ⟨-, hfire⟩ | ⟨-, hpassed⟩
  · have hsampled : (k.elapse 1).sampleDue.Stranded ∧
        (k.elapse 1).sampleDue.queuedDeviceByte = true := by
      unfold sampleDue
      split_ifs
      · exact ⟨hs₁, Iff.mpr (queued_sampled (k := k.elapse 1) rfl rfl rfl) (Or.inl hqueued)⟩
      · exact ⟨hs₁, hqueued⟩
    have heq : (k.elapse 1).fire = (k.elapse 1).sampleDue := by
      unfold fire
      rw [inputDue_of_idle fun _ => hs₁.2.2.2, deviceDue_of_ne (by simp [hs₁.2.2.1])]
      exact schedule_of_busy (.inr (.inl hsampled.1.2.1)) 0
    rw [hfire, heq]
    exact hsampled
  · rw [hpassed]
    exact ⟨hs₁, hqueued⟩

theorem fine_of_fine_tick (hk : k.Timed) (h : (k.advanceMasterTicks 1).Fine) : k.Fine := by
  intro hs
  rw [Bool.eq_false_iff]
  intro hqueued
  obtain ⟨hs', hqueued'⟩ := stalled_tick hk hs hqueued
  rw [h hs'] at hqueued'
  cases hqueued'

/-- A span of time leaves nothing behind exactly when each of its ticks is safe. -/
theorem fine_advance_iff (hk : k.Timed) (hfine : k.Fine) (ticks : ℕ) :
    (k.advanceMasterTicks ticks).Fine ↔ ∀ n < ticks, (k.advanceMasterTicks n).TickSafe := by
  induction ticks with
  | zero => exact iff_of_true hfine nofun
  | succ n ih =>
    have hk' : (k.advanceMasterTicks n).Timed := countdown_lawful.advance_keep n hk
    have hsucc : k.advanceMasterTicks (n + 1) = (k.advanceMasterTicks n).advanceMasterTicks 1 :=
      countdown_lawful.advance_succ n hk
    rw [hsucc]
    constructor
    · intro hlast
      have hbefore := fine_of_fine_tick hk' hlast
      intro m hm
      rcases Nat.lt_succ_iff_lt_or_eq.mp hm with hlt | rfl
      · exact ih.mp hbefore m hlt
      · exact (fine_tick_iff hk' hbefore).mp hlast
    · intro hall
      have hbefore := ih.mpr fun m hm => hall m (Nat.lt_succ_of_lt hm)
      exact (fine_tick_iff hk' hbefore).mpr (hall n (Nat.lt_succ_self n))

structure Waiting (k : Keyboard) (t : ℕ) (b : Byte) : Prop where
  pendingInput : k.pendingInput = none
  obf : k.obf = false
  deviceByteTicks : k.deviceByteTicks = some t
  firstByte : k.firstByte = some b

theorem Waiting.elapse {t : ℕ} {b : Byte} (h : k.Waiting t b) (n : ℕ) :
    (k.elapse n).Waiting (t - n) b where
  pendingInput := h.pendingInput
  obf := h.obf
  deviceByteTicks := by
    show k.deviceByteTicks.map (· - n) = some (t - n)
    rw [h.deviceByteTicks]
    rfl
  firstByte := h.firstByte

theorem Waiting.inputDue {t : ℕ} {b : Byte} (h : k.Waiting t b) : k.inputDue = k :=
  inputDue_of_idle fun _ => h.pendingInput

theorem Waiting.sampleDue {t : ℕ} {b : Byte} (h : k.Waiting t b) : k.sampleDue.Waiting t b := by
  unfold Keyboard.sampleDue
  split_ifs
  · exact ⟨h.pendingInput, h.obf, h.deviceByteTicks, firstByte_sampled h.firstByte rfl rfl rfl⟩
  · exact h

/-- The byte is still on its way after a tick that does not end its countdown. -/
theorem Waiting.tick {t : ℕ} {b : Byte} (hk : k.Timed) (h : k.Waiting (t + 2) b) :
    (k.advanceMasterTicks 1).Waiting (t + 1) b := by
  have h₁ : (k.elapse 1).Waiting (t + 1) b := h.elapse 1
  rcases tick_cases hk with ⟨-, hfire⟩ | ⟨-, hpassed⟩
  · have hafter := h₁.sampleDue
    have heq : (k.elapse 1).fire = (k.elapse 1).sampleDue := by
      unfold Keyboard.fire
      rw [h₁.inputDue, deviceDue_of_ne (by simp [h₁.deviceByteTicks])]
      exact schedule_of_busy (.inr (.inr (by simp [hafter.deviceByteTicks]))) 0
    rw [hfire, heq]
    exact hafter
  · rw [hpassed]
    exact h₁

/-- The byte is latched by the tick that ends its countdown. -/
theorem Waiting.last {b : Byte} (hk : k.Timed) (h : k.Waiting 1 b) :
    (k.advanceMasterTicks 1).obf = true ∧ (k.advanceMasterTicks 1).output = some b := by
  have h₁ : (k.elapse 1).Waiting 0 b := h.elapse 1
  rcases tick_cases hk with ⟨-, hfire⟩ | ⟨hquiet, -⟩
  · have hlatched : (k.elapse 1).deviceDue.obf = true ∧ (k.elapse 1).deviceDue.output = some b := by
      unfold deviceDue
      rw [if_pos h₁.deviceByteTicks]
      exact latchReady_delivers h₁.obf h₁.firstByte
    have hsampled : (k.elapse 1).deviceDue.sampleDue.obf = true ∧
        (k.elapse 1).deviceDue.sampleDue.output = some b := by
      unfold Keyboard.sampleDue
      split_ifs
      · exact hlatched
      · exact hlatched
    rw [hfire]
    unfold Keyboard.fire
    rw [h₁.inputDue]
    show (scheduleDeviceByteAt _ 0).obf = true ∧ (scheduleDeviceByteAt _ 0).output = some b
    rw [schedule_of_busy (.inl hsampled.1)]
    exact hsampled
  · have hlt := (ahead_of_next hquiet).2.1 1 h.deviceByteTicks
    exact absurd hlt (Nat.lt_irrefl 1)

theorem Waiting.delivered (t : ℕ) : ∀ {k : Keyboard} {b : Byte}, k.Timed → k.Waiting (t + 1) b →
    (k.advanceMasterTicks (t + 1)).obf = true ∧ (k.advanceMasterTicks (t + 1)).output = some b := by
  induction t with
  | zero =>
    intro k b hk h
    exact h.last hk
  | succ t ih =>
    intro k b hk h
    have hsplit : k.advanceMasterTicks (t + 1 + 1) =
        (k.advanceMasterTicks 1).advanceMasterTicks (t + 1) := by
      have hadd := countdown_lawful.advance_add 1 (t + 1) hk
      rw [Nat.add_comm 1 (t + 1)] at hadd
      exact hadd
    rw [hsplit]
    exact ih (countdown_lawful.advance_keep 1 hk) (h.tick hk)

def Served (k : Keyboard) : Prop :=
  k.obf = false → k.pendingInput = none → k.queuedDeviceByte = true →
    ∃ t b, k.deviceByteTicks = some t ∧ k.firstByte = some b ∧
      (k.advanceMasterTicks t).obf = true ∧ (k.advanceMasterTicks t).output = some b

theorem served_iff_fine (hk : k.Timed) (harmed : k.Armed) : k.Served ↔ k.Fine := by
  constructor
  · rintro hserved ⟨hobf, -, hticks, hpending⟩
    rw [Bool.eq_false_iff]
    intro hqueued
    obtain ⟨t, -, hsome, -⟩ := hserved hobf hpending hqueued
    rw [hticks] at hsome
    cases hsome
  · intro hfine hobf hpending hqueued
    obtain ⟨b, hb⟩ := exists_firstByte hqueued
    cases hticks : k.deviceByteTicks with
    | none =>
      -- without a countdown the controller is marked ready, and the byte is left behind
      exfalso
      cases hready : k.deviceByteReady with
      | false =>
        have hsome := harmed hobf hready hqueued
        rw [hticks] at hsome
        cases hsome
      | true =>
        rw [hfine ⟨hobf, hready, hticks, hpending⟩] at hqueued
        cases hqueued
    | some t =>
      have hpos := hk.device t hticks
      obtain ⟨n, rfl⟩ : ∃ n, t = n + 1 := ⟨t - 1, by omega⟩
      obtain ⟨hfull, hout⟩ := Waiting.delivered n hk ⟨hpending, hobf, hticks, hb⟩
      exact ⟨n + 1, b, rfl, hb, hfull, hout⟩

def Clear (k : Keyboard) : Event → Prop
  | .pushScancodes codes => k.Stranded → codes = [] ∨ k.keyboardEnabled = false
  | .injectMouse dx dy buttons => k.mouseSampleTicks = none →
      ({ k with mouse := k.mouse.hostUpdate dx dy 0 buttons } : Keyboard).SampleSafe
  | .injectMouseWheel dz => k.mouseSampleTicks = none →
      ({ k with mouse := k.mouse.hostUpdate 0 0 dz k.mouse.hostButtons } : Keyboard).SampleSafe
  | .setMouseReporting on => k.mouseSampleTicks = none →
      ({ k with mouse := k.mouse.setReporting on } : Keyboard).SampleSafe
  | .advance ticks => ∀ n < ticks, (k.advanceMasterTicks n).TickSafe
  | _ => True

structure SameBuffer (k k' : Keyboard) : Prop where
  obf : k'.obf = k.obf
  deviceByteReady : k'.deviceByteReady = k.deviceByteReady
  deviceByteTicks : k'.deviceByteTicks = k.deviceByteTicks
  queued : k'.queuedDeviceByte = k.queuedDeviceByte

theorem SameBuffer.armed (h : k.SameBuffer k') (harmed : k.Armed) : k'.Armed := by
  unfold Armed
  rw [h.obf, h.deviceByteReady, h.queued, h.deviceByteTicks]
  exact harmed

theorem SameBuffer.fine (h : k.SameBuffer k')
    (hpending : k'.pendingInput = k.pendingInput) (hfine : k.Fine) : k'.Fine := by
  unfold Fine Stranded
  rw [h.obf, h.deviceByteReady, h.queued, h.deviceByteTicks, hpending]
  exact hfine

theorem sameBuffer_mouse {mouse : Mouse} (h : mouse.queue = k.mouse.queue) :
    k.SameBuffer { k with mouse } := by
  refine ⟨rfl, rfl, rfl, ?_⟩
  unfold queuedDeviceByte keyboardEnabled auxEnabled
  rw [h]

theorem sameBuffer_noMouseIrq :
    k.SameBuffer { k with commandByte := k.commandByte &&& ~~~0x02#8, irq12Armed := false } := by
  have hkeyboard : ∀ c : Byte, c &&& ~~~0x02#8 &&& 0x10#8 = c &&& 0x10#8 := by decide
  have haux : ∀ c : Byte, c &&& ~~~0x02#8 &&& 0x20#8 = c &&& 0x20#8 := by decide
  refine ⟨rfl, rfl, rfl, ?_⟩
  unfold queuedDeviceByte keyboardEnabled auxEnabled
  dsimp only
  rw [hkeyboard, haux]

theorem sameBuffer_writePort (port : ℕ) (value : Byte) (ticks : ℕ) :
    k.SameBuffer (k.writePortAt port value ticks) := by
  have hdata : ∀ v : Byte, (v ||| statusIbf) &&& ~~~statusCmd &&& statusObf = v &&& statusObf := by
    decide
  have hcommand : ∀ v : Byte, (v ||| statusIbf ||| statusCmd) &&& statusObf = v &&& statusObf := by
    decide
  unfold writePortAt
  split_ifs
  · exact ⟨rfl, rfl, rfl, rfl⟩
  · refine ⟨?_, rfl, rfl, rfl⟩
    unfold Keyboard.obf
    dsimp only
    rw [hdata]
  · refine ⟨?_, rfl, rfl, rfl⟩
    unfold Keyboard.obf
    dsimp only
    rw [hcommand]
  · exact ⟨rfl, rfl, rfl, rfl⟩

theorem armed_kick (harmed : k.Armed) : k.kickMouseSample.Armed := by
  unfold kickMouseSample
  split_ifs with hrunning
  · exact harmed
  · dsimp only
    by_cases hsends : k.mouse.Sends
    · rw [(Mouse.sample_of_sends hsends).1, if_pos rfl]
      have hscheduled : ({ k with mouse := k.mouse.sample.2 } : Keyboard).scheduleDeviceByte.Armed :=
        armed_schedule 0
      split_ifs
      · exact hscheduled
      · exact hscheduled
    · have hquiet := Mouse.sample_of_not_sends hsends
      rw [hquiet.1, if_neg Bool.false_ne_true]
      have hkept := (sameBuffer_mouse (k := k) hquiet.2).armed harmed
      split_ifs
      · exact hkept
      · exact hkept

theorem armed_elapse (n : ℕ) (harmed : k.Armed) : (k.elapse n).Armed := by
  intro hobf hready hqueued
  show (k.deviceByteTicks.map (· - n)).isSome = true
  rw [Option.isSome_map]
  exact harmed hobf hready hqueued

theorem Armed.step (hk : k.Timed) (harmed : k.Armed) (e : Event) : (k.step e).Armed := by
  cases e with
  | readPort port ticks =>
    simp only [Keyboard.step, readPortAt]
    split_ifs
    · exact armed_schedule ticks
    · exact harmed
    · exact harmed
  | writePort port value ticks => exact (sameBuffer_writePort port value ticks).armed harmed
  | pushScancodes codes => exact armed_schedule 0
  | injectMouse dx dy buttons | injectMouseWheel dz =>
    exact armed_kick ((sameBuffer_mouse rfl).armed harmed)
  | setMouseReporting on =>
    exact armed_kick ((sameBuffer_mouse (Mouse.setReporting_queue _ on)).armed harmed)
  | enableMouseWheel => exact (sameBuffer_mouse rfl).armed harmed
  | setMouseSampleRateCode code =>
    exact (sameBuffer_mouse (Mouse.setSampleRateCode_queue _ code)).armed harmed
  | setMouseIrq on =>
    cases on with
    | true => exact armed_schedule 0
    | false => exact sameBuffer_noMouseIrq.armed harmed
  | setA20 enabled => exact SameBuffer.armed ⟨rfl, rfl, rfl, rfl⟩ harmed
  | advance ticks =>
    have hlawful := countdown_lawful.and (Q := Armed) (fun _ n h => armed_elapse n h)
      fun _ _ => armed_schedule 0
    exact (hlawful.advance_keep ticks ⟨hk, harmed⟩).2

theorem fine_pushScancodes_iff (hfine : k.Fine) (codes : List Byte) :
    (k.pushScancodes codes).Fine ↔ (k.Stranded → codes = [] ∨ k.keyboardEnabled = false) := by
  have hscheduled := fine_schedule_iff (k := { k with queue := k.queue ++ codes }) 0
  refine hscheduled.trans ?_
  have hsame : ({ k with queue := k.queue ++ codes } : Keyboard).Stranded ↔ k.Stranded := Iff.rfl
  constructor
  · intro hfine' hs
    obtain ⟨hkeys, -⟩ := queued_eq_false_iff.mp (hfine' (hsame.mpr hs))
    cases henabled : k.keyboardEnabled with
    | false => exact Or.inr rfl
    | true => exact Or.inl (List.append_eq_nil_iff.mp (hkeys henabled)).2
  · intro hclear hs
    obtain ⟨hkeys, hmouse⟩ := queued_eq_false_iff.mp (hfine hs)
    refine queued_eq_false_iff.mpr ⟨fun henabled => ?_, hmouse⟩
    have hnow : k.keyboardEnabled = true := henabled
    rcases hclear hs with rfl | hmasked
    · show k.queue ++ [] = []
      rw [List.append_nil]
      exact hkeys hnow
    · rw [hmasked] at hnow
      cases hnow

/-- A step leaves no byte behind exactly when it is clear. -/
theorem fine_step_iff (hk : k.Timed) (hfine : k.Fine) (e : Event) : (k.step e).Fine ↔ k.Clear e := by
  cases e with
  | readPort port ticks =>
    refine iff_of_true ?_ trivial
    simp only [Keyboard.step, readPortAt]
    split_ifs
    · exact (quiet_schedule quiet_latchIfReady ticks).fine
    · exact hfine
    · exact hfine
  | writePort port value ticks =>
    refine iff_of_true ?_ trivial
    have hbuffer := sameBuffer_writePort (k := k) port value ticks
    cases hpending : (k.writePortAt port value ticks).pendingInput with
    | some input =>
      rintro ⟨-, -, -, hnone⟩
      change (k.writePortAt port value ticks).pendingInput = none at hnone
      rw [hpending] at hnone
      cases hnone
    | none =>
      refine hbuffer.fine ?_ hfine
      rw [hpending]
      unfold writePortAt at hpending
      split_ifs at hpending
      · exact hpending.symm
      · exact hpending.symm
  | pushScancodes codes => exact fine_pushScancodes_iff hfine codes
  | injectMouse dx dy buttons | injectMouseWheel dz =>
    exact fine_kick_iff ((sameBuffer_mouse rfl).fine rfl hfine)
  | setMouseReporting on =>
    exact fine_kick_iff ((sameBuffer_mouse (Mouse.setReporting_queue _ on)).fine rfl hfine)
  | enableMouseWheel => exact iff_of_true ((sameBuffer_mouse rfl).fine rfl hfine) trivial
  | setMouseSampleRateCode code =>
    have hbuffer := sameBuffer_mouse (k := k) (Mouse.setSampleRateCode_queue k.mouse code)
    exact iff_of_true (hbuffer.fine rfl hfine) trivial
  | setMouseIrq on =>
    refine iff_of_true ?_ trivial
    cases on with
    | true => exact (quiet_schedule quiet_latchIfReady 0).fine
    | false => exact sameBuffer_noMouseIrq.fine rfl hfine
  | setA20 enabled => exact iff_of_true (SameBuffer.fine ⟨rfl, rfl, rfl, rfl⟩ rfl hfine) trivial
  | advance ticks => exact fine_advance_iff hk hfine ticks

/-- From power-on, every queued byte of an unmasked device is on its way in every state of a run
exactly when every step of the run is clear. -/
theorem served_throughout_iff (events : List Event) :
    Runs.Throughout Keyboard.step Served events powerOn ↔
      Runs.Along Keyboard.step Clear events powerOn := by
  have hbegin : powerOn.Timed ∧ powerOn.Armed := ⟨timed_powerOn, nofun⟩
  apply Runs.throughout_iff (J := fun k => k.Timed ∧ k.Armed) (W := fun _ _ => True)
  · intro k e hJ _ _
    exact ⟨hJ.1.step e, hJ.2.step hJ.1 e⟩
  · intro k e hJ hserved _
    have hfine := (served_iff_fine hJ.1 hJ.2).mp hserved
    have hnext := served_iff_fine (hJ.1.step e) (hJ.2.step hJ.1 e)
    exact hnext.trans (fine_step_iff hJ.1 hfine e)
  · exact hbegin
  · exact (served_iff_fine hbegin.1 hbegin.2).mpr nofun
  · exact Runs.Along.of_forall (fun _ _ => trivial) events powerOn

def maskedKey : List Event :=
  [.writePort 0x64 0xd4#8 0, .advance controllerInputTicks,
    .writePort 0x60 0xf4#8 0, .advance (controllerInputTicks + deviceByteDelay), .readPort 0x60 0,
    .pushScancodes [0x1e#8], .writePort 0x64 0xad#8 0, .advance deviceByteDelay]

/-- A key whose transfer ends while the keyboard is masked leaves the mouse's next packet with no
countdown. -/
theorem masked_key_stalls_mouse :
    let k := Runs.exec Keyboard.step (maskedKey ++ [.injectMouse 1 0 0#8]) powerOn
    k.obf = false ∧ k.pendingInput = none ∧ k.queuedDeviceByte = true ∧
      k.auxEnabled = true ∧ k.mouse.queue ≠ [] ∧ k.deviceByteTicks = none := by
  decide +kernel

end Keyboard

end IzarraVM.Kbc
