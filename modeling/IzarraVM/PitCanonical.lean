import IzarraVM.PitRises
import IzarraVM.StateFields
import IzarraVM.Views

/-! The canonical payload of the 8254: the state without what nothing can show again. -/
namespace IzarraVM.Timer

open Canonical Views

def rwModeTag : RwMode → UInt8
  | .lsb => 0
  | .msb => 1
  | .lsbThenMsb => 2

def counterStateTag : CounterState → UInt8
  | .inactive | .waitGate => 0
  | .loadDelay => 1
  | .counting => 2

namespace Counter

variable (c : Counter)

def retainFullCount : Bool :=
  decide (c.state = .counting) && match c.mode with
    | 0 | 1 => !c.out
    | 2 | 3 => true
    | 4 | 5 => c.out
    | _ => false

def canonicalCount : UInt32 := if c.retainFullCount then c.count else c.count &&& 0xffff

def unreadBytes (value : UInt16) : UInt16 :=
  match c.rw with
  | .lsb => value &&& 0x00ff
  | .msb => value &&& 0xff00
  | .lsbThenMsb => if c.readMsbNext then value &&& 0xff00 else value

def canonicalLatch : Bool × UInt16 :=
  match c.latch with
  | none => (false, 0)
  | some value => (true, c.unreadBytes value)

def dualByte : Bool := decide (c.rw = .lsbThenMsb)

def canonicalFields : List (List UInt8) :=
  let (latchPresent, latch) := c.canonicalLatch
  let (statusPresent, status) := (c.statusLatch.map fun value => (true, value)).getD (false, 0)
  [writeU8 (UInt8.ofNat c.mode), writeU8 (rwModeTag c.rw), writeBool c.bcd,
    writeU32 c.canonicalCount, writeU16 c.reload, writeBool c.out, writeBool c.gate,
    writeU8 (counterStateTag c.state), writeBool c.nullCount, writeBool latchPresent,
    writeU16 latch, writeBool statusPresent, writeU8 status,
    writeBool (c.dualByte && c.writeMsbNext), writeBool (c.dualByte && c.readMsbNext)]

end Counter

def Pit.payload (pit : Pit) : List UInt8 := (pit.counters.toList.flatMap Counter.canonicalFields).flatten

def CounterState.settled : CounterState → CounterState
  | .waitGate => .inactive
  | state => state

theorem CounterState.settled_eq_counting {state : CounterState} :
    state.settled = .counting ↔ state = .counting := by
  cases state <;> decide

namespace Counter

def coreView (c : Counter) : Counter := { c with count := c.canonicalCount, state := c.state.settled }

def frame (c : Counter) : Counter := { c with count := 0, state := .inactive }

variable {c d : Counter} {n : ℕ}

theorem mask_mask (x : UInt32) : x &&& 0xffff &&& 0xffff = x &&& 0xffff := by
  rw [UInt32.and_assoc]
  rfl

theorem canonicalCount_mask (c : Counter) : c.canonicalCount &&& 0xffff = c.count &&& 0xffff := by
  unfold canonicalCount
  split
  · rfl
  · exact mask_mask _

theorem retainFullCount_congr (hmode : d.mode = c.mode) (hout : d.out = c.out)
    (hstate : d.state = .counting ↔ c.state = .counting) : d.retainFullCount = c.retainFullCount := by
  unfold retainFullCount
  rw [decide_eq_decide.mpr hstate, hmode, hout]

/-- Two counters have one view if they differ in no more than the bits of the counting element that
are not retained, and in waiting for a trigger. -/
theorem coreView_congr (hframe : d.frame = c.frame) (hstate : d.state.settled = c.state.settled)
    (hmask : d.count &&& 0xffff = c.count &&& 0xffff)
    (hretain : c.retainFullCount = true → d.count = c.count) : d.coreView = c.coreView := by
  have hmode : d.mode = c.mode := show d.frame.mode = c.frame.mode by rw [hframe]
  have hout : d.out = c.out := show d.frame.out = c.frame.out by rw [hframe]
  have hcounting : d.state = .counting ↔ c.state = .counting := by
    rw [← CounterState.settled_eq_counting, hstate, CounterState.settled_eq_counting]
  have hcount : d.canonicalCount = c.canonicalCount := by
    unfold canonicalCount
    rw [retainFullCount_congr hmode hout hcounting]
    split
    · exact hretain ‹_›
    · exact hmask
  unfold coreView
  rw [hcount, hstate]
  exact congrArg (fun f : Counter => { f with count := c.canonicalCount, state := c.state.settled }) hframe

theorem counting_of_retain (h : c.retainFullCount = true) : c.state = .counting := by
  unfold retainFullCount at h
  rw [Bool.and_eq_true] at h
  exact of_decide_eq_true h.1

theorem coreView_of_retain (h : c.retainFullCount = true) : c.coreView = c := by
  have hstate : c.state.settled = c.state := by
    rw [counting_of_retain h]
    rfl
  rw [coreView, canonicalCount, if_pos h, hstate]

theorem settled_settled (state : CounterState) : state.settled.settled = state.settled := by
  cases state <;> rfl

theorem coreView_coreView (c : Counter) : c.coreView.coreView = c.coreView := by
  refine coreView_congr rfl (settled_settled c.state) c.canonicalCount_mask fun h => ?_
  exact if_pos h

/-- The decrement does not carry down from the bits that are masked off. -/
theorem dec_mask (c : Counter) (value : UInt32) (amount : ℕ) :
    c.dec (value &&& 0xffff) amount &&& 0xffff = c.dec value amount &&& 0xffff := by
  unfold dec
  split
  · rw [bcdDec, bcdDec, mask_mask]
  · apply UInt32.toNat_inj.mp
    have hlt := value.toNat_lt
    rw [low_toNat, low_toNat, UInt32.toNat_sub, UInt32.toNat_sub, low_toNat]
    omega

/-- What a counting counter is doing where its element is not retained: its one-shot is over, it is in
its strobe, or it has no mode. -/
theorem cases_of_not_retain (hstate : c.state = .counting) (h : c.retainFullCount = false) :
    ((c.mode = 0 ∨ c.mode = 1) ∧ c.out = true) ∨ ((c.mode = 4 ∨ c.mode = 5) ∧ c.out = false) ∨
      5 < c.mode := by
  unfold retainFullCount at h
  rw [hstate, decide_eq_true rfl, Bool.true_and] at h
  split at h
  · exact .inl ⟨.inl ‹_›, by simpa using h⟩
  · exact .inl ⟨.inr ‹_›, by simpa using h⟩
  · cases h
  · cases h
  · exact .inr (.inl ⟨.inl ‹_›, h⟩)
  · exact .inr (.inl ⟨.inr ‹_›, h⟩)
  · rename_i h0 h1 h2 h3 h4 h5
    simp only [imp_false] at h0 h1 h2 h3 h4 h5
    exact .inr (.inr (by omega))

/-- The view of a counter that counts on beyond what it retains. -/
theorem coreView_of_counting (hstate : c.state = .counting) (hretain : c.retainFullCount = false) :
    c.coreView = { c with count := c.count &&& 0xffff } := by
  have hsettled : c.state.settled = c.state := by
    rw [hstate]
    rfl
  rw [coreView, canonicalCount, hretain, if_neg (by decide), hsettled]

/-- Of such counters, those that differ in the masked bits alone have one view. -/
theorem coreView_masked (hretain : c.retainFullCount = false) (value : UInt32) :
    { c with count := value &&& 0xffff }.coreView = { c with count := value }.coreView := by
  refine coreView_congr rfl rfl (mask_mask value) fun h => ?_
  change c.retainFullCount = true at h
  rw [hretain] at h
  cases h

theorem step_paused (hstate : c.state = .counting) (hgate : c.gate = false) :
    c.step = (c.pause, false) := by
  unfold step stepCounting
  rw [hstate, hgate]
  rfl

theorem step_modeless (hstate : c.state = .counting) (hgate : c.gate = true) (hmode : 5 < c.mode) :
    c.step = (c, false) := by
  unfold step stepCounting
  rw [hstate, hgate]
  dsimp only
  obtain ⟨m, hm⟩ : ∃ m, c.mode = m + 6 := ⟨c.mode - 6, by omega⟩
  rw [hm]
  rfl

/-- A clock of counting, seen through the view. -/
theorem step_counting_coreView (hstate : c.state = .counting) :
    c.coreView.step.1.coreView = c.step.1.coreView ∧ c.coreView.step.2 = c.step.2 := by
  cases hretain : c.retainFullCount with
  | true =>
    rw [coreView_of_retain hretain]
    exact ⟨rfl, rfl⟩
  | false =>
    rw [coreView_of_counting hstate hretain]
    obtain ⟨d, hd⟩ : ∃ d, d = { c with count := c.count &&& 0xffff } := ⟨_, rfl⟩
    have hstate' : d.state = .counting := hd ▸ hstate
    have hmode' : d.mode = c.mode := by rw [hd]
    have hout' : d.out = c.out := by rw [hd]
    have hgate' : d.gate = c.gate := by rw [hd]
    rw [← hd]
    have hmode := cases_of_not_retain hstate hretain
    cases hgate : c.gate with
    | false =>
      -- a low GATE forces OUT high in the modes that retain the whole element only
      have hpause (e : Counter) (he : e.mode = c.mode) : e.pause = e := by
        rw [pause, if_neg (by omega)]
      rw [step_paused hstate hgate, step_paused hstate' (hgate'.trans hgate), hpause c rfl,
        hpause d hmode', hd]
      exact ⟨coreView_masked hretain c.count, rfl⟩
    | true =>
      rw [hgate] at hgate'
      obtain ⟨hmode, hout⟩ | ⟨hmode, hout⟩ | hmode := hmode
      · have hterminal (e : Counter) (he : e.out = true) :
            e.stepTerminal = ({ e with count := e.dec e.count 1 }, false) := by
          rw [stepTerminal]
          exact if_neg fun h => Bool.noConfusion (he.symm.trans h.2)
        rw [step_terminal hstate hgate hmode, step_terminal hstate' hgate' (by rwa [hmode']),
          hterminal c hout, hterminal d (hout'.trans hout), hd]
        refine ⟨coreView_congr rfl rfl (c.dec_mask c.count 1) fun h => ?_, rfl⟩
        exact Bool.noConfusion (hretain.symm.trans h)
      · rw [step_strobe hstate hgate hmode, step_strobe hstate' hgate' (by rwa [hmode']), stepStrobe,
          stepStrobe, hout, hout', hout, hd]
        refine ⟨coreView_congr rfl rfl (mask_mask c.count) fun h => ?_, rfl⟩
        cases counting_of_retain h
      · rw [step_modeless hstate hgate hmode, step_modeless hstate' hgate' (by rwa [hmode']), hd]
        exact ⟨coreView_masked hretain c.count, rfl⟩

theorem step_coreView (c : Counter) :
    c.coreView.step.1.coreView = c.step.1.coreView ∧ c.coreView.step.2 = c.step.2 := by
  have hidle (hstate : c.state.settled = .inactive) (hidle : c.step = (c, false)) :
      c.coreView.step.1.coreView = c.step.1.coreView ∧ c.coreView.step.2 = c.step.2 := by
    have hstep : c.coreView.step = (c.coreView, false) := by
      unfold step
      rw [show c.coreView.state = .inactive from hstate]
    rw [hstep, hidle]
    exact ⟨c.coreView_coreView, rfl⟩
  cases hstate : c.state with
  | inactive => exact hidle (by rw [hstate]; rfl) (by rw [step, hstate])
  | waitGate => exact hidle (by rw [hstate]; rfl) (by rw [step, hstate])
  | loadDelay =>
    have hstate' : c.coreView.state = .loadDelay := by
      rw [coreView, hstate]
      rfl
    rw [step, step, hstate, hstate']
    exact ⟨rfl, rfl⟩
  | counting => exact step_counting_coreView hstate

theorem mask16_mask (x : UInt32) : mask16 (x &&& 0xffff).toNat = mask16 x.toNat := by
  apply UInt16.toNat_inj.mp
  rw [mask16, mask16, UInt16.toNat_ofNat', UInt16.toNat_ofNat', low_toNat, Nat.mod_mod]

theorem maskedCount_coreView (c : Counter) : c.coreView.maskedCount = c.maskedCount := by
  unfold maskedCount
  rw [← mask16_mask c.count, ← c.canonicalCount_mask, mask16_mask]
  rfl

theorem mask16_wrap32 (x : UInt32) (hn : n < 2 ^ 64) :
    mask16 (wrap32 (x &&& 0xffff).toNat n) = mask16 (wrap32 x.toNat n) := by
  apply UInt16.toNat_inj.mp
  have hlt := x.toNat_lt
  rw [mask16, mask16, UInt16.toNat_ofNat', UInt16.toNat_ofNat', low_toNat, wrap32, wrap32]
  omega

/-- Without its whole element retained, a counter's levels and rises depend on its OUT alone, and its
count on the element's lower bits. -/
theorem peeks_of_not_retain (hstate : c.state = .counting) (hretain : c.retainFullCount = false)
    (v v' : ℕ) (w w' : UInt32) (r : ℕ) :
    countingOutAfter c.mode v r c.out n = countingOutAfter c.mode v' r c.out n ∧
      c.riseFrom w = c.riseFrom w' := by
  obtain ⟨hmode, hout⟩ | ⟨hmode, hout⟩ | hmode := cases_of_not_retain hstate hretain
  · rcases hmode with hmode | hmode <;> simp [countingOutAfter, riseFrom, hmode, hout]
  · rcases hmode with hmode | hmode <;> simp [countingOutAfter, riseFrom, hmode, hout]
  · obtain ⟨m, hm⟩ : ∃ m, c.mode = m + 6 := ⟨c.mode - 6, by omega⟩
    simp [countingOutAfter, riseFrom, hm]

theorem count_of_not_retain (hstate : c.state = .counting) (hretain : c.retainFullCount = false)
    (hn : n < 2 ^ 64) (r : UInt32) :
    countingCountAfter c.mode (c.count &&& 0xffff) r c.out n =
      countingCountAfter c.mode c.count r c.out n := by
  have hmask := mask16_mask c.count
  have hwrap := mask16_wrap32 c.count hn
  generalize c.count &&& 0xffff = w at hmask hwrap ⊢
  obtain ⟨hmode, hout⟩ | ⟨hmode, hout⟩ | hmode := cases_of_not_retain hstate hretain
  · rcases hmode with hmode | hmode <;> simp [countingCountAfter, hmode, hout, hmask, hwrap]
  · rcases hmode with hmode | hmode <;> simp [countingCountAfter, hmode, hout, hmask]
  · obtain ⟨m, hm⟩ : ∃ m, c.mode = m + 6 := ⟨c.mode - 6, by omega⟩
    simp [countingCountAfter, hm, hmask]

/-- A counter that counts, behind its view: it is the view, or it has no more than its element masked. -/
theorem counting_cases (hstate : c.state = .counting) : c.coreView = c ∨
    c.retainFullCount = false ∧ c.coreView = { c with count := c.count &&& 0xffff } := by
  cases hretain : c.retainFullCount with
  | true => exact .inl (coreView_of_retain hretain)
  | false => exact .inr ⟨rfl, coreView_of_counting hstate hretain⟩

variable (c)

theorem coreView_state : c.coreView.state = c.state.settled := rfl

theorem outAfter_coreView (n : ℕ) : c.coreView.outAfter n = c.outAfter n := by
  cases hstate : c.state with
  | counting =>
    obtain hview | ⟨hretain, hview⟩ := counting_cases hstate
    · rw [hview]
    · rw [hview, outAfter, outAfter]
      dsimp only
      rw [hstate]
      dsimp only
      rw [(peeks_of_not_retain hstate hretain _ c.count.toNat 0 0 _).1]
      rfl
  | inactive | waitGate | loadDelay =>
    rw [outAfter, outAfter, coreView_state, hstate]
    rfl

theorem clocksUntilOutRise_coreView : c.coreView.clocksUntilOutRise = c.clocksUntilOutRise := by
  cases hstate : c.state with
  | counting =>
    obtain hview | ⟨hretain, hview⟩ := counting_cases hstate
    · rw [hview]
    · have hrise := (peeks_of_not_retain hstate hretain 0 0 (c.count &&& 0xffff) c.count 0 (n := 0)).2
      rw [hview, clocksUntilOutRise, clocksUntilOutRise]
      dsimp only
      rw [hstate]
      dsimp only
      rw [← hrise]
      rfl
  | inactive | waitGate | loadDelay =>
    rw [clocksUntilOutRise, clocksUntilOutRise, coreView_state, hstate]
    rfl

theorem countAfter_coreView (hn : n < 2 ^ 64) : c.coreView.countAfter n = c.countAfter n := by
  have hmasked := c.maskedCount_coreView
  cases hstate : c.state with
  | counting =>
    obtain hview | ⟨hretain, hview⟩ := counting_cases hstate
    · rw [hview]
    · rw [hview] at hmasked ⊢
      rw [countAfter, countAfter]
      dsimp only
      rw [hmasked, hstate]
      dsimp only
      rw [count_of_not_retain hstate hretain hn]
      rfl
  | inactive | waitGate | loadDelay =>
    rw [countAfter, countAfter, coreView_state, hstate, hmasked]
    rfl

theorem liveCount_coreView (hn : n < 2 ^ 64) : c.coreView.liveCount n = c.liveCount n := by
  rw [liveCount, liveCount, countAfter_coreView c hn, maskedCount_coreView]

theorem nullCountAfter_coreView (n : ℕ) : c.coreView.nullCountAfter n = c.nullCountAfter n := by
  rw [nullCountAfter, nullCountAfter, coreView_state]
  cases c.state <;> rfl

theorem latchCount_coreView (hn : n < 2 ^ 64) : c.coreView.latchCount n = (c.latchCount n).coreView := by
  unfold latchCount
  rw [liveCount_coreView c hn]
  by_cases hlatch : c.latch = none
  · rw [if_pos hlatch, if_pos (show c.coreView.latch = none from hlatch)]
    rfl
  · rw [if_neg hlatch, if_neg (show ¬c.coreView.latch = none from hlatch)]

theorem latchStatus_coreView (n : ℕ) : c.coreView.latchStatus n = (c.latchStatus n).coreView := by
  unfold latchStatus
  rw [outAfter_coreView, nullCountAfter_coreView]
  by_cases hlatch : c.statusLatch = none
  · rw [if_pos hlatch, if_pos (show c.coreView.statusLatch = none from hlatch)]
    rfl
  · rw [if_neg hlatch, if_neg (show ¬c.coreView.statusLatch = none from hlatch)]

theorem read_coreView (hn : n < 2 ^ 64) :
    c.coreView.read n = ((c.read n).1, (c.read n).2.coreView) := by
  unfold read
  rw [liveCount_coreView c hn, show c.coreView.statusLatch = c.statusLatch from rfl]
  cases c.statusLatch with
  | some status => rfl
  | none =>
    dsimp only
    rw [show c.coreView.rw = c.rw from rfl, show c.coreView.readMsbNext = c.readMsbNext from rfl]
    cases c.rw with
    | lsb => rfl
    | msb => rfl
    | lsbThenMsb =>
      dsimp only
      split_ifs <;> rfl

/-- A new programming stops the count. -/
theorem writeControl_coreView (value : UInt8) (hn : n < 2 ^ 64) :
    (c.coreView.writeControl value n).coreView = (c.writeControl value n).coreView := by
  unfold writeControl
  dsimp only
  split_ifs with hlatch
  · rw [latchCount_coreView c hn, coreView_coreView]
  all_goals
    refine coreView_congr rfl rfl c.canonicalCount_mask fun h => ?_
    cases counting_of_retain h

/-- An access that leaves the element to the counter, and lets no more of it matter than before. -/
theorem coreView_kept {c e : Counter} (hframe : e.frame = d.frame)
    (hstate : e.state.settled = d.state.settled) (hcount : d.count = c.count)
    (hcount' : e.count = c.canonicalCount) (hretain : d.retainFullCount = true → c.retainFullCount = true) :
    e.coreView = d.coreView := by
  refine coreView_congr hframe hstate ?_ fun h => ?_
  · rw [hcount, hcount', canonicalCount_mask]
  · rw [hcount, hcount', canonicalCount, if_pos (hretain h)]

theorem arm_coreView : c.coreView.arm.coreView = c.arm.coreView := by
  have hsettled : c.coreView.arm.state.settled = c.arm.state.settled := by
    unfold arm
    dsimp only
    rw [coreView_state, show c.coreView.mode = c.mode from rfl]
    cases c.state <;> (split <;> rfl)
  refine coreView_kept (c := c) rfl hsettled rfl rfl fun h => ?_
  -- the counter was counting before, or it would have to load
  have hcounting : c.state = .counting := by
    have hstate := counting_of_retain h
    unfold arm at hstate
    dsimp only at hstate
    by_contra hne
    split at hstate <;> simp [hne] at hstate
  rwa [← retainFullCount_congr (d := c.arm) (c := c) rfl rfl
    (iff_of_true (counting_of_retain h) hcounting)]

theorem writeCount_coreView (value : UInt8) :
    (c.coreView.writeCount value).coreView = (c.writeCount value).coreView := by
  unfold writeCount
  rw [show c.coreView.rw = c.rw from rfl, show c.coreView.writeMsbNext = c.writeMsbNext from rfl]
  cases c.rw with
  | lsb => exact (c.setLow value).arm_coreView
  | msb => exact (c.setHigh value).arm_coreView
  | lsbThenMsb =>
    dsimp only
    by_cases hfirst : c.writeMsbNext = false
    · rw [if_pos hfirst, if_pos hfirst]
      by_cases hmode : c.mode = 0
      · rw [if_pos (show (c.coreView.setLow value).mode = 0 from hmode),
          if_pos (show (c.setLow value).mode = 0 from hmode)]
        refine coreView_kept (c := c) rfl rfl rfl rfl fun h => ?_
        cases counting_of_retain h
      · rw [if_neg (show ¬(c.coreView.setLow value).mode = 0 from hmode),
          if_neg (show ¬(c.setLow value).mode = 0 from hmode)]
        exact coreView_coreView { c.setLow value with writeMsbNext := true }
    · rw [if_neg hfirst, if_neg hfirst]
      exact arm_coreView { c.setHigh value with writeMsbNext := false }

theorem setGate_coreView (level : Bool) :
    (c.coreView.setGate level).coreView = (c.setGate level).coreView := by
  have hsame : ({ c.coreView with gate := level }).coreView = ({ c with gate := level }).coreView :=
    coreView_coreView { c with gate := level }
  unfold setGate
  dsimp only
  rw [show c.coreView.gate = c.gate from rfl, show c.coreView.mode = c.mode from rfl]
  split
  · -- the rise: a trigger loads, a restart waits for its load
    split
    · rfl
    · rfl
    · refine coreView_kept (c := c) rfl rfl rfl rfl fun h => ?_
      cases counting_of_retain h
    · refine coreView_kept (c := c) rfl rfl rfl rfl fun h => ?_
      cases counting_of_retain h
    · exact hsame
  · split
    · next hfall =>
      refine coreView_kept (c := c) rfl (settled_settled _) rfl rfl fun h => ?_
      have hcounting := counting_of_retain h
      unfold retainFullCount
      rcases hfall.2 with hmode | hmode <;> rw [hmode, decide_eq_true hcounting] <;> rfl
    · exact hsame

end Counter

end IzarraVM.Timer
