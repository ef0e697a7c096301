import IzarraVM.SbDsp

/-! The block law of the DSP, for every transfer mode and every order of commands. -/
namespace IzarraVM.SoundBlaster

open BlockCount

namespace SbDsp

theorem takeUnit_of_pos {d : SbDsp} (hplay : d.playing = true) (hpos : 0 < d.blockRemaining) :
    d.takeUnit = finishIfEmpty
      { d with blockRemaining := d.blockRemaining - 1, log := d.log ++ [.fetched] } := by
  have hfull : (d.mark .fetched).finishIfEmpty = d.mark .fetched :=
    if_neg (Nat.pos_iff_ne_zero.mp hpos)
  have hone : min 1 d.blockRemaining = 1 := Nat.min_eq_left hpos
  simp only [takeUnit, advanceBlock, advanceLoop, hfull]
  simp only [mark, hplay, hone, Nat.zero_lt_one, decide_true, Bool.and_self, if_true]

theorem takeUnit_more {d : SbDsp} (hplay : d.playing = true) (hmore : 2 ≤ d.blockRemaining) :
    d.takeUnit = { d with blockRemaining := d.blockRemaining - 1, log := d.log ++ [.fetched] } := by
  rw [takeUnit_of_pos hplay (by omega)]
  exact if_neg (show d.blockRemaining - 1 ≠ 0 by omega)

theorem finishBlock_eq (d : SbDsp) :
    (0 < d.blockSize ∧ d.finishBlock = { d with
      irqPending := true
      irqSource := d.dmaIrqSource
      blockRemaining := d.blockSize
      log := d.log ++ [.completed (some d.blockSize)] }) ∨
    d.finishBlock = { d with
      irqPending := true
      irqSource := d.dmaIrqSource
      playing := false
      log := d.log ++ [.completed none] } := by
  unfold finishBlock
  by_cases h : (d.autoInit && decide (0 < d.blockSize)) = true
  · refine .inl ⟨?_, if_pos h⟩
    exact of_decide_eq_true (Bool.and_eq_true _ _ ▸ h).2
  · exact .inr (if_neg h)

/-- What rendering is made of: fetched units, and changes of what is held between them. -/
inductive Fetch (d : SbDsp) : SbDsp → Prop where
  | unit (hplay : d.playing = true) : Fetch d d.takeUnit
  | held (left : Option ℤ) (adpcm : Option AdpcmState) :
      Fetch d { d with pendingStereoLeft := left, adpcm := adpcm }

abbrev Fetches : SbDsp → SbDsp → Prop := Relation.ReflTransGen Fetch

section

variable {d : SbDsp} {α : Type} (hplay : d.playing = true) (sample : α → ℤ)
  (supply : List (Option α))
include hplay

theorem renderMono_fetches : d.Fetches (renderMono sample supply d).1 := by
  unfold renderMono
  split
  · exact .refl
  · exact .single (.unit hplay)

theorem renderRight_fetches (left : ℤ) : d.Fetches (renderRight sample supply left d).1 := by
  unfold renderRight
  split
  · rw [if_pos hplay]
    exact .single (.held (some left) d.adpcm)
  · exact .single (.unit hplay)

theorem renderStereo_fetches : d.Fetches (renderStereo sample supply d).1 := by
  unfold renderStereo
  split
  · next left _ =>
    have hrest := renderRight_fetches (d := { d with pendingStereoLeft := none }) hplay sample supply
    exact .head (.held none d.adpcm) (hrest left)
  · split
    · exact .refl
    · have hunit : d.Fetches d.takeUnit := .single (.unit hplay)
      split
      · next hgoes => exact hunit.trans (renderRight_fetches hgoes _ _ _)
      · exact hunit

end

theorem popAdpcmSample_fetches (supply : List (Option UInt8)) (d : SbDsp) :
    d.Fetches (popAdpcmSample supply d).1 := by
  fun_induction popAdpcmSample supply d with
  | case1 => exact .refl
  | case2 => exact .single (.held _ _)
  | case3 d state _ _ hplay byte supply ih =>
    exact .head (.unit hplay) (.head (.held d.takeUnit.pendingStereoLeft _) ih)
  | case4 => exact .refl
  | case5 => exact .refl

theorem renderFrame_fetches (d : SbDsp) (bytes : List (Option UInt8))
    (words : List (Option UInt16)) : d.Fetches (d.renderFrame bytes words).1 := by
  unfold renderFrame
  split_ifs with hpaused hadpcm hidle
  · exact .refl
  · exact popAdpcmSample_fetches bytes d
  · exact .refl
  · exact .refl
  all_goals have hplay : d.playing = true := by simpa using hidle
  · exact renderMono_fetches hplay _ _
  · exact renderStereo_fetches hplay _ _
  · exact renderStereo_fetches hplay _ _
  · exact renderMono_fetches hplay _ _

end SbDsp

variable (units : ℕ)

def countOf : Count := if units = 0 then .idle else .left units

theorem countOf_pos {units : ℕ} (h : 0 < units) : countOf units = .left units :=
  if_neg (Nat.pos_iff_ne_zero.mp h)

theorem countOf_ne_due : countOf units ≠ .due := by
  unfold countOf
  split <;> nofun

theorem next_armed {size : ℕ} (h : 0 < size) :
    (countOf units).next (.armed size) = some (countOf size) := by
  have hload : Count.load size = some (countOf size) := by
    rw [countOf_pos h]
    exact if_neg (Nat.pos_iff_ne_zero.mp h)
  unfold countOf at hload ⊢
  split <;> exact hload

theorem next_dropped : (countOf units).next .dropped = some .idle := by
  unfold countOf
  split <;> rfl

structure Sound (d : SbDsp) : Prop where
  counted : Counted d.log (countOf d.blockRemaining)
  loaded : d.playing = true → 0 < d.blockRemaining

theorem sound_default : Sound SbDsp.default := ⟨counted_nil, nofun⟩

namespace Sound

variable {d d' : SbDsp}

theorem ite {p : Prop} [Decidable p] (h : p → Sound d) (h' : ¬ p → Sound d') :
    Sound (if p then d else d') := iteInduction h h'

variable (h : Sound d)
include h

theorem law : Law d.log := h.counted.law (countOf_ne_due _)

/-- What neither moves units nor starts playback. -/
theorem congr (hlog : d'.log = d.log) (hleft : d'.blockRemaining = d.blockRemaining)
    (hplay : d'.playing = true → d.playing = true) : Sound d' where
  counted := by rw [hlog, hleft]; exact h.counted
  loaded := fun hp => hleft ▸ h.loaded (hplay hp)

omit h in
/-- The last unit of a block, with the interrupt that follows it. -/
theorem finishBlock (hdue : Counted d.log .due) (hempty : d.blockRemaining = 0) :
    Sound d.finishBlock := by
  rcases d.finishBlock_eq with ⟨hsize, heq⟩ | heq <;> rw [heq]
  · refine ⟨hdue.mark ?_, fun _ => hsize⟩
    show Count.load d.blockSize = some (countOf d.blockSize)
    rw [countOf_pos hsize]
    exact if_neg (Nat.pos_iff_ne_zero.mp hsize)
  · refine ⟨hdue.mark ?_, nofun⟩
    show some Count.idle = some (countOf d.blockRemaining)
    rw [hempty]
    rfl

theorem takeUnit (hplay : d.playing = true) : Sound d.takeUnit := by
  have hpos := h.loaded hplay
  have hcounted := h.counted
  rw [countOf_pos hpos] at hcounted
  rw [SbDsp.takeUnit_of_pos hplay hpos]
  unfold SbDsp.finishIfEmpty
  refine .ite (fun hlast => ?_) fun hmore => ?_
  · have hone : d.blockRemaining = 1 := Nat.le_antisymm (Nat.sub_eq_zero_iff_le.mp hlast) hpos
    refine finishBlock (hcounted.mark ?_) hlast
    rw [hone]
    rfl
  · have hleft : d.blockRemaining - 1 ≠ 0 := hmore
    refine ⟨hcounted.mark ?_, fun _ => Nat.pos_of_ne_zero hleft⟩
    show some (if d.blockRemaining = 1 then Count.due else .left (d.blockRemaining - 1)) =
      some (countOf (d.blockRemaining - 1))
    rw [if_neg (by omega), countOf_pos (Nat.pos_of_ne_zero hleft)]

theorem fetches (hfetches : d.Fetches d') : Sound d' := by
  induction hfetches with
  | refl => exact h
  | tail _ hfetch ih =>
    cases hfetch with
    | unit hplay => exact ih.takeUnit hplay
    | held left adpcm => exact ih.congr rfl rfl id

end Sound

def Continues (command : UInt8) : Prop := command = 0xd4 ∨ command = 0xd6

def ArmsSetSize (command : UInt8) : Prop :=
  command = 0x1c ∨ command = 0x1f ∨ command = 0x7d ∨ command = 0x7f ∨ command = 0x90 ∨
    command = 0x91

structure Startable (d : SbDsp) (command : UInt8) : Prop where
  resumed : Continues command → 0 < d.blockRemaining
  sized : ArmsSetSize command → 0 < d.blockSize

instance : DecidablePred Continues := fun command =>
  inferInstanceAs (Decidable (command = 0xd4 ∨ command = 0xd6))

instance : DecidablePred ArmsSetSize := fun command =>
  inferInstanceAs (Decidable (command = 0x1c ∨ command = 0x1f ∨ command = 0x7d ∨ command = 0x7f ∨
    command = 0x90 ∨ command = 0x91))

instance (d : SbDsp) (command : UInt8) : Decidable (Startable d command) :=
  decidable_of_iff
    ((Continues command → 0 < d.blockRemaining) ∧ (ArmsSetSize command → 0 < d.blockSize))
    ⟨fun h => ⟨h.1, h.2⟩, fun h => ⟨h.resumed, h.sized⟩⟩

/-- The single-cycle ADPCM commands bring their length with them. -/
theorem commandArity_adpcm {command : UInt8}
    (h : 0x74 ≤ command ∧ command ≤ 0x77 ∨ command = 0x16 ∨ command = 0x17) :
    commandArity command = 2 := by
  rcases h with ⟨hlo, hhi⟩ | rfl | rfl
  · have hlo' : 0x74 ≤ command.toNat := UInt8.le_iff_toNat_le.mp hlo
    have hhi' : command.toNat ≤ 0x77 := UInt8.le_iff_toNat_le.mp hhi
    have hcases : command.toNat = 0x74 ∨ command.toNat = 0x75 ∨ command.toNat = 0x76 ∨
        command.toNat = 0x77 := by omega
    rcases hcases with h | h | h | h
    · rw [show command = 0x74 from UInt8.toNat_inj.mp h]; rfl
    · rw [show command = 0x75 from UInt8.toNat_inj.mp h]; rfl
    · rw [show command = 0x76 from UInt8.toNat_inj.mp h]; rfl
    · rw [show command = 0x77 from UInt8.toNat_inj.mp h]; rfl
  · rfl
  · rfl

/-- What a step that renders nothing does to the block: it keeps it or starts one anew, lets playback
go on, or gives it up. Only a step that `loaded` holds of starts over units. -/
inductive Effect (loaded : Prop) (d d' : SbDsp) : Prop
  | kept (hlog : d'.log = d.log) (hleft : d'.blockRemaining = d.blockRemaining)
      (hplay : d'.playing = true → d.playing = true)
  | armed (size : ℕ) (hlog : d'.log = d.log ++ [.armed size]) (hleft : d'.blockRemaining = size)
      (hsize : loaded → 0 < size)
  | resumed (hlog : d'.log = d.log) (hleft : d'.blockRemaining = d.blockRemaining)
      (hsize : loaded → 0 < d.blockRemaining)
  | dropped (hlog : d'.log = d.log ++ [.dropped]) (hleft : d'.blockRemaining = 0)
      (hplay : d'.playing = false)

namespace Effect

variable {d d' d₀ : SbDsp} {loaded loaded' : Prop}

theorem ite {p : Prop} [Decidable p] (h : p → Effect loaded d d') (h' : ¬ p → Effect loaded d d₀) :
    Effect loaded d (if p then d' else d₀) := iteInduction h h'

theorem same : Effect loaded d d := .kept rfl rfl id

/-- The state before may differ in what the block has no part in. -/
theorem mono (h : Effect loaded d₀ d') (hloaded : loaded' → loaded) (hlog : d₀.log = d.log)
    (hleft : d₀.blockRemaining = d.blockRemaining) (hplay : d₀.playing = d.playing) :
    Effect loaded' d d' := by
  cases h with
  | kept hlog' hleft' hplay' =>
    exact .kept (hlog'.trans hlog) (hleft'.trans hleft) fun h => hplay ▸ hplay' h
  | armed size hlog' hleft' hsize =>
    exact .armed size (hlog ▸ hlog') hleft' fun h => hsize (hloaded h)
  | resumed hlog' hleft' hsize =>
    exact .resumed (hlog'.trans hlog) (hleft'.trans hleft) fun h => hleft ▸ hsize (hloaded h)
  | dropped hlog' hleft' hplay' => exact .dropped (hlog ▸ hlog') hleft' hplay'

theorem sound (h : Effect loaded d d') (hd : Sound d) (hloaded : loaded) : Sound d' := by
  cases h with
  | kept hlog hleft hplay => exact hd.congr hlog hleft hplay
  | armed size hlog hleft hsize =>
    have hpos := hsize hloaded
    refine ⟨?_, fun _ => hleft ▸ hpos⟩
    rw [hlog, hleft]
    exact hd.counted.mark (next_armed _ hpos)
  | resumed hlog hleft hsize =>
    refine ⟨?_, fun _ => hleft ▸ hsize hloaded⟩
    rw [hlog, hleft]
    exact hd.counted
  | dropped hlog hleft hplay =>
    refine ⟨?_, fun h => absurd (hplay.symm.trans h) Bool.false_ne_true⟩
    rw [hlog, hleft]
    exact hd.counted.mark (next_dropped _)

theorem completions_eq (h : Effect loaded d d') : completions d'.log = completions d.log := by
  cases h with
  | kept hlog => rw [hlog]
  | armed size hlog => rw [hlog, completions_append _ rfl]
  | resumed hlog => rw [hlog]
  | dropped hlog => rw [hlog, completions_append _ rfl]

end Effect

variable {d : SbDsp}

theorem setInlineSize_frame (d : SbDsp) (args : List UInt8) :
    (d.setInlineSize args).log = d.log ∧
      (d.setInlineSize args).blockRemaining = d.blockRemaining ∧
      (d.setInlineSize args).playing = d.playing ∧
      (2 ≤ args.length → 0 < (d.setInlineSize args).blockSize) := by
  match args with
  | lo :: hi :: rest => exact ⟨rfl, rfl, rfl, fun _ => Nat.succ_pos _⟩
  | [] => exact ⟨rfl, rfl, rfl, fun h => absurd h (by decide)⟩
  | [lo] => exact ⟨rfl, rfl, rfl, fun h => absurd h (by simp)⟩

theorem execute_effect (d : SbDsp) (command : UInt8) (args : List UInt8) :
    Effect (commandArity command ≤ args.length ∧ Startable d command) d (d.execute command args) := by
  obtain ⟨hlog, hleft, hplay, hinline⟩ := setInlineSize_frame d args
  unfold SbDsp.execute
  -- the replies and the settings before the sample rates
  iterate 9 refine .ite (fun _ => .kept rfl rfl id) fun _ => ?_
  refine .ite (fun _ => ?_) fun _ => ?_
  · unfold SbDsp.setTimeConstant
    split <;> exact .kept rfl rfl id
  refine .ite (fun _ => ?_) fun _ => ?_
  · unfold SbDsp.setSampleRate
    split <;> exact .kept rfl rfl id
  refine .ite (fun _ => ?_) fun _ => ?_
  · unfold SbDsp.setInputRate
    split <;> exact .kept rfl rfl id
  -- MIDI, and the block size alone
  iterate 2 refine .ite (fun _ => .kept rfl rfl id) fun _ => ?_
  refine .ite (fun _ => .kept hlog hleft fun h => hplay ▸ h) fun _ => ?_
  -- the transfers
  refine .ite (fun hc => ?_) fun _ => ?_
  · subst hc
    exact .armed _ (hlog ▸ rfl) rfl fun h => hinline h.1
  refine .ite (fun hc => .armed _ rfl rfl fun h => h.2.sized (.inl hc)) fun _ => ?_
  refine .ite (fun hc => ?_) fun _ => ?_
  · exact .armed _ (hlog ▸ rfl) rfl fun h => hinline (commandArity_adpcm hc ▸ h.1)
  iterate 5
    refine .ite (fun hc => ?_) fun _ => ?_
    · exact .armed _ rfl rfl fun h => h.2.sized (by simp [ArmsSetSize, hc])
  refine .ite (fun _ => ?_) fun _ => ?_
  · exact .ite (fun _ => .same) fun _ => .armed _ rfl rfl fun _ => Nat.succ_pos _
  refine .ite (fun _ => ?_) fun _ => ?_
  · exact .ite (fun _ => .same) fun _ => .armed _ rfl rfl fun _ => Nat.succ_pos _
  -- halt and continue: only the second can start playback
  refine .ite (fun _ => .kept rfl rfl nofun) fun _ => ?_
  refine .ite (fun hc => .resumed rfl rfl fun h => h.2.resumed hc) fun _ => ?_
  refine .ite (fun _ => .kept rfl rfl id) fun _ => ?_
  refine .ite (fun _ => .ite (fun _ => .kept rfl rfl id) fun _ => .same) fun _ => ?_
  refine .ite (fun _ => .kept rfl rfl id) fun _ => ?_
  refine .ite (fun _ => ?_) fun _ => ?_
  · unfold SbDsp.pauseDac
    split <;> exact .kept rfl rfl id
  iterate 2 refine .ite (fun _ => .kept rfl rfl id) fun _ => ?_
  refine .ite (fun _ => ?_) fun _ => ?_
  · unfold SbDsp.readRam
    split <;> exact .kept rfl rfl id
  refine .ite (fun _ => ?_) fun _ => .same
  unfold SbDsp.writeRam
  split <;> exact .kept rfl rfl id

theorem dispatch_effect (d : SbDsp) (command : UInt8) (args : List UInt8) :
    Effect (commandArity command ≤ args.length ∧ Startable d command) d (d.dispatch command args) :=
  (execute_effect (d.setRam 0x20 command) command args).mono
    (fun h => ⟨h.1, h.2.resumed, h.2.sized⟩) rfl rfl rfl

/-- A command that takes arguments starts no playback over an empty block. -/
theorem startable_of_arity (d : SbDsp) {command : UInt8} (h : 0 < commandArity command) :
    Startable d command where
  resumed := by
    rintro (rfl | rfl) <;> exact absurd h (by decide)
  sized := by
    rintro (rfl | rfl | rfl | rfl | rfl | rfl) <;> exact absurd h (by decide)

theorem writeCommandByte_effect (d : SbDsp) (byte : UInt8) :
    Effect (d.uartMidi = false → d.pending.isNone → Startable d byte) d (d.writeCommandByte byte) := by
  unfold SbDsp.writeCommandByte
  split
  · exact .kept rfl rfl id
  · rename_i hmidi
    split
    · rename_i p _
      split
      · rename_i hfull
        refine (dispatch_effect { d with pending := none } _ _).mono (fun _ => ⟨hfull, ?_⟩) rfl rfl rfl
        exact startable_of_arity _ (Nat.zero_lt_of_lt p.short)
      · exact .kept rfl rfl id
    · rename_i hnone
      split
      · rename_i harity
        refine (dispatch_effect d byte []).mono (fun h => ⟨Nat.le_of_eq harity, ?_⟩) rfl rfl rfl
        exact h (by simpa using hmidi) (hnone ▸ rfl)
      · exact .kept rfl rfl id

def StartsLoaded (d : SbDsp) : Event → Prop
  | .writePort port value =>
    port = 0x22c → d.uartMidi = false → d.pending.isNone → Startable d value
  | _ => True

instance (d : SbDsp) : (event : Event) → Decidable (StartsLoaded d event)
  | .writePort port value => inferInstanceAs
      (Decidable (port = 0x22c → d.uartMidi = false → d.pending.isNone → Startable d value))
  | .readPort _ | .advanceMicros _ | .armPauseAt _ | .serviceResetAt _ | .armResetAt _
  | .setSbproStereo _ | .takeIrq | .renderFrame _ _ => isTrue trivial

def Event.renders : Event → Bool
  | .renderFrame _ _ => true
  | _ => false

theorem step_effect (d : SbDsp) {event : Event} (hevent : event.renders = false) :
    Effect (StartsLoaded d event) d (d.step event) := by
  cases event with
  | writePort port value =>
    show Effect _ d (d.writePort port value).1
    unfold SbDsp.writePort
    split
    · split
      · exact .kept rfl rfl id
      · exact .dropped rfl rfl rfl
    · split
      · rename_i hport
        exact (writeCommandByte_effect d value).mono (fun h => h hport) rfl rfl rfl
      · exact .same
  | readPort port =>
    show Effect _ d (d.readPort port).1
    unfold SbDsp.readPort
    split_ifs <;> exact .kept rfl rfl id
  | advanceMicros micros =>
    have hreset : (d.advanceReset micros).log = d.log ∧
        (d.advanceReset micros).blockRemaining = d.blockRemaining ∧
        (d.advanceReset micros).playing = d.playing := by
      unfold SbDsp.advanceReset
      split
      · exact ⟨rfl, rfl, rfl⟩
      · split <;> exact ⟨rfl, rfl, rfl⟩
    have hpause (e : SbDsp) :
        Effect True e { e.advancePause micros with pauseFoldArmed := false } := by
      unfold SbDsp.advancePause
      split
      · exact .kept rfl rfl id
      · split <;> exact .kept rfl rfl id
    exact (hpause _).mono (fun _ => trivial) hreset.1 hreset.2.1 hreset.2.2
  | armPauseAt pendingMicros =>
    exact .ite (fun _ => .kept rfl rfl id) fun _ => .same
  | serviceResetAt pendingMicros =>
    show Effect _ d (d.serviceResetAt pendingMicros)
    unfold SbDsp.serviceResetAt
    split
    · exact .same
    · exact .ite (fun _ => .kept rfl rfl id) fun _ => .same
  | armResetAt pendingMicros =>
    show Effect _ d (d.armResetAt pendingMicros)
    unfold SbDsp.armResetAt
    split <;> exact .kept rfl rfl id
  | setSbproStereo on => exact .kept rfl rfl id
  | takeIrq =>
    show Effect _ d d.takeIrqSource.1
    unfold SbDsp.takeIrqSource
    split <;> exact .kept rfl rfl id
  | renderFrame bytes words => cases hevent

theorem Sound.step (h : Sound d) {event : Event} (hstart : StartsLoaded d event) :
    Sound (d.step event) := by
  cases hevent : event.renders with
  | false => exact (step_effect d hevent).sound h hstart
  | true =>
    cases event with
    | renderFrame bytes words => exact h.fetches (d.renderFrame_fetches bytes words)
    | _ => cases hevent

theorem Sound.exec (events : List Event) {d : SbDsp} (h : Sound d)
    (hruns : Runs.Along SbDsp.step StartsLoaded events d) : Sound (Runs.exec SbDsp.step events d) := by
  induction events generalizing d with
  | nil => exact h
  | cons event rest ih => exact ih (h.step hruns.1) hruns.2

end IzarraVM.SoundBlaster
