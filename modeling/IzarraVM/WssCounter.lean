import IzarraVM.BlockCount
import IzarraVM.StepRuns

/-! The playback counter of the Windows Sound System codec (`wss.rs`), with a log of frames. -/
namespace IzarraVM.Wss

open BlockCount

structure Ad1848 where
  regs : ℕ → UInt8
  index : ℕ
  mce : Bool
  trd : Bool
  status : UInt8
  irqPending : Bool
  currentCount : ℕ
  playing : Bool
  log : List Mark

namespace Ad1848

def reset : Ad1848 where
  regs := Function.update (Function.update (Function.update (fun _ => 0) 6 0x80) 7 0x80) 9 0x08
  index := 0
  mce := true
  trd := false
  status := 0xcc
  irqPending := false
  currentCount := 0
  playing := false
  log := []

variable (c : Ad1848)

def mark (m : Mark) : Ad1848 := { c with log := c.log ++ [m] }

def setReg (i : ℕ) (value : UInt8) : Ad1848 := { c with regs := Function.update c.regs i value }

def baseCount : ℕ := (c.regs 14).toNat * 256 + (c.regs 15).toNat

def interrupting : Bool := c.status &&& 0x01 ≠ 0

def interruptEnabled : Bool := c.regs 10 &&& 0x02 ≠ 0

def updatePlaybackArm : Ad1848 :=
  if c.regs 9 &&& 0x01 ≠ 0 ∧ 0 < c.baseCount then
    if c.playing then c
    else { c with currentCount := c.baseCount, playing := true }.mark (.armed (c.baseCount + 1))
  else if c.playing then { c with playing := false }.mark .dropped
  else c

def writeIndex (value : UInt8) : Ad1848 :=
  { c with
    mce := value &&& 0x40 ≠ 0
    trd := value &&& 0x20 ≠ 0
    index := (value &&& 0x0f).toNat }

def writeIndexedData (value : UInt8) : Ad1848 :=
  if c.index = 8 then if c.mce then c.setReg 8 value else c
  else if c.index = 9 then
    let value := if c.mce then value else (c.regs 9 &&& ~~~0x03) ||| (value &&& 0x03)
    (c.setReg 9 value).updatePlaybackArm
  else if c.index = 14 then
    let c := c.setReg 14 value
    let c := { c with currentCount := c.baseCount }
    (if c.playing then c.mark (.armed (c.baseCount + 1)) else c).updatePlaybackArm
  else if c.index = 11 ∨ c.index = 12 then c
  else c.setReg c.index value

def writePort (offset : ℕ) (value : UInt8) : Ad1848 :=
  if offset = 4 then c.writeIndex value
  else if offset = 5 then c.writeIndexedData value
  else if offset = 6 then { c with status := c.status &&& ~~~0x01 }
  else c

def takeIrq : Ad1848 := { c with irqPending := false }

def framesUntilNextIrq : Option ℕ :=
  if !c.playing then none
  else if !c.interruptEnabled then none
  else if c.trd && c.interrupting then none
  else some (c.currentCount + 1)

def underflow : Ad1848 :=
  let c := { c with
    status := c.status ||| 0x01
    irqPending := c.irqPending || c.interruptEnabled }
  if 0 < c.baseCount then
    { c with currentCount := c.baseCount }.mark (.completed (some (c.baseCount + 1)))
  else { c with playing := false }.mark (.completed none)

def advanceCount : Ad1848 :=
  if c.trd && c.interrupting then c
  else if c.currentCount = 0 then c.underflow
  else { c with currentCount := c.currentCount - 1 }

def is16bit : Bool := c.regs 8 &&& 0x20 = 0 ∧ c.regs 8 &&& 0x40 ≠ 0

def isStereo : Bool := c.regs 8 &&& 0x10 ≠ 0

def fetchSample (supply : List UInt8) : Option (List UInt8) :=
  match c.is16bit, supply with
  | false, _ :: rest => some rest
  | true, _ :: _ :: rest => some rest
  | _, _ => none

def renderFrame (supply : List UInt8) : Option (List UInt8) × Ad1848 :=
  if !c.playing then (none, c)
  else
    let left := c.fetchSample supply
    match if c.isStereo then left.bind c.fetchSample else left with
    | none => (none, c)
    | some rest => (some rest, (c.mark .fetched).advanceCount)

end Ad1848

inductive Event where
  | write (offset : ℕ) (value : UInt8)
  | frame (supply : List UInt8)
  | takeIrq

def Ad1848.step (c : Ad1848) : Event → Ad1848
  | .write offset value => c.writePort offset value
  | .frame supply => (c.renderFrame supply).2
  | .takeIrq => c.takeIrq

namespace Ad1848

variable {c : Ad1848}

def stands (c : Ad1848) : Count := if c.playing then .left (c.currentCount + 1) else .idle

def Sound (c : Ad1848) : Prop := Counted c.log c.stands

theorem Sound.updatePlaybackArm (h : c.Sound) : c.updatePlaybackArm.Sound := by
  unfold Ad1848.updatePlaybackArm
  split_ifs with harm hplay hplay
  · exact h
  · -- a start from rest
    unfold Sound stands at h
    rw [if_neg hplay] at h
    exact h.mark rfl
  · unfold Sound stands at h
    rw [if_pos hplay] at h
    exact h.mark rfl
  · exact h

/-- Loading the counter starts a block anew. -/
theorem Sound.load (h : c.Sound) :
    (if c.playing then { c with currentCount := c.baseCount }.mark (.armed (c.baseCount + 1))
      else { c with currentCount := c.baseCount }).Sound := by
  unfold Sound stands at *
  by_cases hplay : c.playing = true
  · rw [if_pos hplay] at h ⊢
    show Counted (c.log ++ [.armed (c.baseCount + 1)]) (if c.playing = true then _ else _)
    rw [if_pos hplay]
    exact h.mark rfl
  · rw [if_neg hplay] at h ⊢
    show Counted c.log (if c.playing = true then _ else _)
    rw [if_neg hplay]
    exact h

theorem Sound.writeIndexedData (h : c.Sound) (value : UInt8) :
    (c.writeIndexedData value).Sound := by
  have hset (i : ℕ) (v : UInt8) : (c.setReg i v).Sound := h
  unfold Ad1848.writeIndexedData
  split_ifs
  · exact hset 8 value
  · exact h
  · exact (hset 9 _).updatePlaybackArm
  · exact (hset 9 _).updatePlaybackArm
  · exact (hset 14 value).load.updatePlaybackArm
  · exact h
  · exact hset _ value

def Unfrozen (c : Ad1848) : Event → Prop
  | .frame _ => (c.trd && c.interrupting) = false
  | _ => True

instance (c : Ad1848) : (e : Event) → Decidable (c.Unfrozen e)
  | .frame _ => inferInstanceAs (Decidable ((c.trd && c.interrupting) = false))
  | .write _ _ => isTrue trivial
  | .takeIrq => isTrue trivial

inductive Frame (c : Ad1848) : Ad1848 → Prop where
  | idle : Frame c c
  | stood (hplay : c.playing = true) (hfrozen : (c.trd && c.interrupting) = true) :
      Frame c (c.mark .fetched)
  | underflowed (hplay : c.playing = true) (hfree : (c.trd && c.interrupting) = false)
      (hzero : c.currentCount = 0) : Frame c (c.mark .fetched).underflow
  | counted (hplay : c.playing = true) (hfree : (c.trd && c.interrupting) = false)
      (hpos : 0 < c.currentCount) :
      Frame c { c.mark .fetched with currentCount := c.currentCount - 1 }

theorem advanceCount_frame (hplay : c.playing = true) :
    c.Frame (c.mark .fetched).advanceCount := by
  unfold Ad1848.advanceCount
  split_ifs with hfrozen hzero
  · exact .stood hplay hfrozen
  · exact .underflowed hplay (eq_false_of_ne_true hfrozen) hzero
  · exact .counted hplay (eq_false_of_ne_true hfrozen) (Nat.pos_of_ne_zero hzero)

theorem renderFrame_frame (c : Ad1848) (supply : List UInt8) :
    c.Frame (c.renderFrame supply).2 := by
  unfold renderFrame
  by_cases hplay : c.playing = true
  · rw [if_neg (by rw [hplay]; decide)]
    dsimp only
    split
    · exact .idle
    · exact advanceCount_frame hplay
  · rw [if_pos (by simpa using hplay)]
    exact .idle

/-- A frame that is taken counts: down, or to the end of the block. -/
theorem Sound.frame {c' : Ad1848} (h : c.Sound) (hframe : c.Frame c')
    (hfree : (c.trd && c.interrupting) = false) : c'.Sound := by
  have hleft (hplay : c.playing = true) : Counted c.log (.left (c.currentCount + 1)) := by
    unfold Sound stands at h
    rw [if_pos hplay] at h
    exact h
  cases hframe with
  | idle => exact h
  | stood _ hfrozen => exact absurd (hfree.symm.trans hfrozen) Bool.false_ne_true
  | underflowed hplay _ hzero =>
    have hlast := hleft hplay
    rw [hzero] at hlast
    have hdue : Counted (c.log ++ [.fetched]) .due := hlast.mark rfl
    unfold underflow
    dsimp only
    split_ifs
    · show Counted _ (if c.playing then _ else _)
      rw [if_pos hplay]
      exact hdue.mark rfl
    · exact hdue.mark rfl
  | counted hplay _ hpos =>
    show Counted _ (if c.playing then .left (c.currentCount - 1 + 1) else _)
    rw [if_pos hplay, Nat.sub_add_cancel hpos]
    refine (hleft hplay).mark ?_
    show some (if c.currentCount + 1 = 1 then _ else _) = _
    rw [if_neg (by omega)]
    rfl

theorem Sound.step (h : c.Sound) {e : Event} (hfree : c.Unfrozen e) : (c.step e).Sound := by
  cases e with
  | write offset value =>
    show (c.writePort offset value).Sound
    unfold writePort
    split_ifs
    · exact h
    · exact h.writeIndexedData value
    · exact h
    · exact h
  | frame supply => exact h.frame (c.renderFrame_frame supply) hfree
  | takeIrq => exact h

theorem reset_sound : reset.Sound := counted_nil

theorem Sound.run (h : c.Sound) (events : List Event)
    (hfree : Runs.Along Ad1848.step Unfrozen events c) :
    (Runs.exec Ad1848.step events c).Sound := by
  induction events generalizing c with
  | nil => exact h
  | cons e rest ih => exact ih (h.step hfree.1) hfree.2

def taken (c : Ad1848) : ℕ := c.log.count .fetched

theorem underflow_fields (c : Ad1848) : c.underflow.interruptEnabled = c.interruptEnabled ∧
    c.underflow.irqPending = (c.irqPending || c.interruptEnabled) ∧
    c.underflow.status = c.status ||| 0x01 ∧ c.underflow.taken = c.taken := by
  unfold underflow
  dsimp only
  split_ifs
  all_goals exact ⟨rfl, rfl, rfl, by simp [taken, mark]⟩

theorem framesUntilNextIrq_eq_some {n : ℕ} : c.framesUntilNextIrq = some n ↔
    c.playing = true ∧ c.interruptEnabled = true ∧ (c.trd && c.interrupting) = false ∧
      c.currentCount + 1 = n := by
  unfold framesUntilNextIrq
  cases c.playing <;> cases c.interruptEnabled <;> cases c.trd && c.interrupting <;> simp

section

variable {c' : Ad1848} (hframe : c.Frame c')
include hframe

/-- The frame that the prediction names raises the interrupt, and those before it do not. -/
theorem Frame.predicted {n : ℕ}
    (h : c.framesUntilNextIrq = some n) : c' = c ∨ c'.taken = c.taken + 1 ∧
      (n = 1 ∧ c'.irqPending = true ∨
        1 < n ∧ c'.framesUntilNextIrq = some (n - 1) ∧ c'.irqPending = c.irqPending) := by
  obtain ⟨hplay, henabled, hfree, rfl⟩ := framesUntilNextIrq_eq_some.mp h
  have hmarked : (c.mark .fetched).taken = c.taken + 1 := by simp [taken, mark]
  cases hframe with
  | idle => exact .inl rfl
  | stood _ hfrozen => exact absurd (hfree.symm.trans hfrozen) Bool.false_ne_true
  | underflowed _ _ hzero =>
    obtain ⟨-, hraised, -, htaken⟩ := (c.mark .fetched).underflow_fields
    refine .inr ⟨htaken.trans hmarked, .inl ⟨by omega, hraised.trans ?_⟩⟩
    exact (congrArg (c.irqPending || ·) henabled).trans (Bool.or_true _)
  | counted _ _ hpos =>
    refine .inr ⟨hmarked, .inr ⟨by omega, ?_, rfl⟩⟩
    refine framesUntilNextIrq_eq_some.mpr ⟨hplay, henabled, hfree, ?_⟩
    show c.currentCount - 1 + 1 = c.currentCount + 1 - 1
    omega

/-- Without a prediction no frame raises the interrupt, and there will be none after it. -/
theorem Frame.unpredicted (h : c.framesUntilNextIrq = none) :
    c'.framesUntilNextIrq = none ∧ c'.irqPending = c.irqPending := by
  have hdisabled (hplay : c.playing = true) (hfree : (c.trd && c.interrupting) = false) :
      c.interruptEnabled = false := by
    by_contra henabled
    have hsome := framesUntilNextIrq_eq_some.mpr
      ⟨hplay, Bool.of_not_eq_false henabled, hfree, rfl⟩
    cases h.symm.trans hsome
  have hnone {d : Ad1848} (hd : d.interruptEnabled = false) : d.framesUntilNextIrq = none := by
    unfold framesUntilNextIrq
    rw [hd]
    exact ite_self _
  cases hframe with
  | idle => exact ⟨h, rfl⟩
  | stood => exact ⟨h, rfl⟩
  | underflowed hplay hfree =>
    obtain ⟨hkept, hraised, -⟩ := (c.mark .fetched).underflow_fields
    have hoff := hdisabled hplay hfree
    refine ⟨hnone (hkept.trans hoff), hraised.trans ?_⟩
    exact (congrArg (c.irqPending || ·) hoff).trans (Bool.or_false _)
  | counted hplay hfree => exact ⟨hnone (hdisabled hplay hfree), rfl⟩

theorem Frame.mono : c.taken ≤ c'.taken ∧ (c.irqPending = true → c'.irqPending = true) := by
  have hmarked : c.taken ≤ (c.mark .fetched).taken := by simp [taken, mark]
  cases hframe with
  | idle => exact ⟨Nat.le_refl _, id⟩
  | stood => exact ⟨hmarked, id⟩
  | underflowed =>
    obtain ⟨-, hraised, -, htaken⟩ := (c.mark .fetched).underflow_fields
    refine ⟨hmarked.trans_eq htaken.symm, fun h => hraised.trans ?_⟩
    exact (congrArg (· || c.interruptEnabled) h).trans (Bool.true_or _)
  | counted => exact ⟨hmarked, id⟩

/-- An underflow leaves the interrupt bit set. -/
theorem Frame.interrupting
    (h : completions c.log < completions c'.log) : c'.interrupting = true := by
  have hbit (s : UInt8) : (s ||| 0x01) &&& 0x01 = 0x01 := by
    apply UInt8.toBitVec_inj.1
    ext i hi
    simp
    exact .inr
  have hmarked : ¬ completions c.log < completions (c.mark .fetched).log :=
    (completions_append c.log rfl).not_gt
  cases hframe with
  | idle => exact absurd h (Nat.lt_irrefl _)
  | stood => exact absurd h hmarked
  | underflowed =>
    unfold Ad1848.interrupting
    rw [(underflow_fields _).2.2.1, hbit]
    rfl
  | counted => exact absurd h hmarked

end

def frames (supplies : List (List UInt8)) (c : Ad1848) : Ad1848 :=
  Runs.exec (fun c supply => (c.renderFrame supply).2) supplies c

theorem frames_cons (supply : List UInt8) (rest : List (List UInt8)) (c : Ad1848) :
    frames (supply :: rest) c = frames rest (c.renderFrame supply).2 := rfl

theorem frames_mono (supplies : List (List UInt8)) (c : Ad1848) :
    c.taken ≤ (frames supplies c).taken ∧
      (c.irqPending = true → (frames supplies c).irqPending = true) := by
  induction supplies generalizing c with
  | nil => exact ⟨Nat.le_refl _, id⟩
  | cons supply rest ih =>
    have hframe := (c.renderFrame_frame supply).mono
    have hrest := ih (c.renderFrame supply).2
    exact ⟨hframe.1.trans hrest.1, fun h => hrest.2 (hframe.2 h)⟩

/-- What `framesUntilNextIrq` says comes true, over any frames. -/
theorem frames_predicted (supplies : List (List UInt8)) {c : Ad1848} {n : ℕ}
    (h : c.framesUntilNextIrq = some n) :
    ((frames supplies c).taken < c.taken + n → (frames supplies c).irqPending = c.irqPending) ∧
      ((frames supplies c).taken = c.taken + n → (frames supplies c).irqPending = true) := by
  induction supplies generalizing c n with
  | nil =>
    refine ⟨fun _ => rfl, fun heq => ?_⟩
    have hzero : n = 0 := Nat.left_eq_add.mp heq
    have hn := (framesUntilNextIrq_eq_some.mp h).2.2.2
    omega
  | cons supply rest ih =>
    rw [frames_cons]
    rcases (c.renderFrame_frame supply).predicted h with
      hidle | ⟨htaken, ⟨rfl, hraised⟩ | ⟨hmore, hnext, hkept⟩⟩
    · rw [hidle]
      exact ih h
    · have hmono := frames_mono rest (c.renderFrame supply).2
      refine ⟨fun hlt => ?_, fun _ => hmono.2 hraised⟩
      exact absurd hlt (Nat.not_lt.mpr (htaken ▸ hmono.1))
    · obtain ⟨hbefore, hat⟩ := ih hnext
      rw [htaken, hkept] at hbefore
      rw [htaken] at hat
      exact ⟨fun hlt => hbefore (by omega), fun heq => hat (by omega)⟩

theorem frames_unpredicted (supplies : List (List UInt8)) {c : Ad1848}
    (h : c.framesUntilNextIrq = none) : (frames supplies c).irqPending = c.irqPending := by
  induction supplies generalizing c with
  | nil => rfl
  | cons supply rest ih =>
    obtain ⟨hnext, hkept⟩ := (c.renderFrame_frame supply).unpredicted h
    exact (ih hnext).trans hkept

/-- A block, from a load or an underflow to the next underflow, is one frame longer than the base
count; the underflow sets the interrupt bit, at the frame that is predicted. -/
structure TerminalCount (c : Ad1848) : Prop where
  law : Law c.log
  sticky : ∀ supply, completions c.log < completions (c.renderFrame supply).2.log →
    (c.renderFrame supply).2.interrupting = true
  predicted : ∀ n, c.framesUntilNextIrq = some n → ∀ supplies,
    ((frames supplies c).taken < c.taken + n → (frames supplies c).irqPending = c.irqPending) ∧
      ((frames supplies c).taken = c.taken + n → (frames supplies c).irqPending = true)
  unpredicted : c.framesUntilNextIrq = none → ∀ supplies,
    (frames supplies c).irqPending = c.irqPending

/-- Every run in which no frame is taken while transfers are disabled and the interrupt is not
acknowledged keeps the terminal count. -/
theorem terminal_count_kept (events : List Event) (hfree : Runs.Along step Unfrozen events reset) :
    TerminalCount (Runs.exec step events reset) := by
  have hsound := reset_sound.run events hfree
  refine ⟨hsound.law ?_, fun supply => (renderFrame_frame _ supply).interrupting,
    fun n h supplies => frames_predicted supplies h,
    fun h supplies => frames_unpredicted supplies h⟩
  unfold stands
  split_ifs
  · exact nofun
  · exact nofun

def pausedProgram : List Event :=
  [.write 4 0x4f, .write 5 1, .write 4 0x4e, .write 5 0, .write 4 0x69, .write 5 0x09]

theorem pausedProgram_kept :
    TerminalCount (Runs.exec step (pausedProgram ++ [.frame [0], .frame [0]]) reset) :=
  terminal_count_kept _ (by decide +kernel)

def lateAcknowledge : List Event :=
  pausedProgram ++ List.replicate 4 (.frame [0]) ++ [.write 6 0, .frame [0], .frame [0]]

theorem lateAcknowledge_not_kept : ¬ TerminalCount (Runs.exec step lateAcknowledge reset) := by
  have hlog : (Runs.exec step lateAcknowledge reset).log =
      [.armed 2, .fetched, .fetched] ++ .completed (some 2) ::
        (List.replicate 4 .fetched ++ .completed (some 2) :: []) := by
    decide +kernel
  intro h
  have hfour : 4 = 2 := h.law.exact hlog rfl
  exact absurd hfour (by decide)

end Ad1848

end IzarraVM.Wss
