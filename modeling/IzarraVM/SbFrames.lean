import IzarraVM.RasterBeam
import IzarraVM.SbBlocks

/-! The frame that `frames_until_next_irq` names, with a DMA that always supplies data. -/
namespace IzarraVM.SoundBlaster

open BlockCount Raster

namespace SbDsp

variable {d : SbDsp}

theorem completions_finishBlock (d : SbDsp) :
    completions d.finishBlock.log = completions d.log + 1 := by
  rcases d.finishBlock_eq with ⟨-, heq⟩ | heq <;> rw [heq]
  · exact completions_completed _ _
  · exact completions_completed _ _

/-- The interrupt while units are fetched: it is raised, for the channel of the transfer, if and only
if a block completes. -/
structure Signals (d d' : SbDsp) : Prop where
  width : d'.dma16bit = d.dma16bit
  grows : completions d.log ≤ completions d'.log
  quiet : completions d'.log = completions d.log →
    d'.irqPending = d.irqPending ∧ d'.irqSource = d.irqSource
  raised : completions d.log < completions d'.log →
    d'.irqPending = true ∧ d'.irqSource = d.dmaIrqSource

namespace Signals

variable {d d' d'' : SbDsp}

theorem same (d : SbDsp) : Signals d d :=
  ⟨rfl, Nat.le_refl _, fun _ => ⟨rfl, rfl⟩, fun h => absurd h (Nat.lt_irrefl _)⟩

theorem trans (h : Signals d d') (h' : Signals d' d'') : Signals d d'' := by
  have hgrows := h.grows
  have hgrows' := h'.grows
  refine ⟨h'.width.trans h.width, by omega, fun hsame => ?_, fun hmore => ?_⟩
  · obtain ⟨hpending, hsource⟩ := h.quiet (by omega)
    obtain ⟨hpending', hsource'⟩ := h'.quiet (by omega)
    exact ⟨hpending'.trans hpending, hsource'.trans hsource⟩
  · rcases Nat.eq_or_lt_of_le hgrows' with hlast | hlast
    · obtain ⟨hpending, hsource⟩ := h.raised (by omega)
      obtain ⟨hpending', hsource'⟩ := h'.quiet hlast.symm
      exact ⟨hpending'.trans hpending, hsource'.trans hsource⟩
    · obtain ⟨hpending, hsource⟩ := h'.raised hlast
      refine ⟨hpending, hsource.trans ?_⟩
      unfold dmaIrqSource
      rw [h.width]

/-- The state before may differ in what the interrupt has no part in. -/
theorem congr (h : Signals d' d'') (hwidth : d'.dma16bit = d.dma16bit)
    (hlog : completions d'.log = completions d.log) (hpending : d'.irqPending = d.irqPending)
    (hsource : d'.irqSource = d.irqSource) : Signals d d'' := by
  refine .trans ⟨hwidth, Nat.le_of_eq hlog.symm, fun _ => ⟨hpending, hsource⟩, ?_⟩ h
  exact fun hmore => absurd hlog (Nat.ne_of_gt hmore)

end Signals

theorem finishBlock_signals (d : SbDsp) : Signals d d.finishBlock := by
  have hmore := completions_finishBlock d
  refine ⟨?_, by omega, fun hsame => by omega, fun _ => ?_⟩
  · rcases d.finishBlock_eq with ⟨-, heq⟩ | heq <;> rw [heq]
  · rcases d.finishBlock_eq with ⟨-, heq⟩ | heq <;> rw [heq] <;> exact ⟨rfl, rfl⟩

theorem finishIfEmpty_signals (d : SbDsp) : Signals d d.finishIfEmpty := by
  unfold finishIfEmpty
  split
  · exact d.finishBlock_signals
  · exact .same d

theorem advanceLoop_signals (fuel consumed : ℕ) (d : SbDsp) :
    Signals d (advanceLoop fuel consumed d) := by
  induction fuel generalizing consumed d with
  | zero => exact .same d
  | succ fuel ih =>
    have hfirst := d.finishIfEmpty_signals
    unfold advanceLoop
    split
    · dsimp only
      split
      · exact hfirst.trans (((finishIfEmpty_signals _).trans (ih _ _)).congr rfl rfl rfl rfl)
      · exact hfirst
    · exact .same d

theorem takeUnit_signals (d : SbDsp) : Signals d d.takeUnit :=
  (advanceLoop_signals 1 1 (d.mark .fetched)).congr rfl (completions_append _ rfl) rfl rfl

theorem Fetches.signals {d' : SbDsp} (h : d.Fetches d') : Signals d d' := by
  induction h with
  | refl => exact .same d
  | tail _ hfetch ih =>
    cases hfetch with
    | unit hplay => exact ih.trans (takeUnit_signals _)
    | held left adpcm => exact ih.trans ((Signals.same _).congr rfl rfl rfl rfl)

/-- In every step the interrupt is raised for every block that completes. -/
theorem step_raises {d : SbDsp} {event : Event}
    (hmore : completions d.log < completions (d.step event).log) :
    (d.step event).irqPending = true ∧ (d.step event).irqSource = d.dmaIrqSource := by
  cases hevent : event.renders with
  | false => exact absurd (step_effect d hevent).completions_eq (Nat.ne_of_gt hmore)
  | true =>
    cases event with
    | renderFrame bytes words => exact (d.renderFrame_fetches bytes words).signals.raised hmore
    | _ => cases hevent

/-- The last unit of a block completes it; so does a unit fetched with no block loaded. -/
theorem completes_of_last (hplay : d.playing = true) (hlast : d.blockRemaining ≤ 1) :
    completions d.log < completions d.takeUnit.log := by
  rcases Nat.le_one_iff_eq_zero_or_eq_one.mp hlast with hzero | hone
  · -- the loop completes an empty block before it counts the unit
    have hfinish : (d.mark .fetched).finishIfEmpty = (d.mark .fetched).finishBlock := if_pos hzero
    have hcount := completions_finishBlock (d.mark .fetched)
    rw [show (d.mark .fetched).log = d.log ++ [.fetched] from rfl, completions_append _ rfl] at hcount
    have hplay' : (decide (0 < 1) && (d.mark .fetched).playing) = true := hplay
    simp only [takeUnit, advanceBlock, advanceLoop]
    rw [if_pos hplay', hfinish]
    split
    · refine Nat.lt_of_lt_of_le (Nat.lt_of_lt_of_eq (Nat.lt_succ_self _) hcount.symm) ?_
      exact (finishIfEmpty_signals
        { (d.mark .fetched).finishBlock with
          blockRemaining := (d.mark .fetched).finishBlock.blockRemaining - min 1
            (d.mark .fetched).finishBlock.blockRemaining }).grows
    · exact Nat.lt_of_lt_of_eq (Nat.lt_succ_self _) hcount.symm
  · rw [takeUnit_of_pos hplay (by omega)]
    unfold finishIfEmpty
    rw [if_pos (show d.blockRemaining - 1 = 0 by omega), completions_finishBlock, completions_append _ rfl]
    exact Nat.lt_succ_self _

def twoUnits (d : SbDsp) : Bool := d.stereo || (!d.dma16bit && d.sbproStereo)

structure Plain (d : SbDsp) : Prop where
  pcm : d.adpcm = none
  awake : d.pauseMicros = none

theorem renderFrame_mono (hd : d.Plain) (hplay : d.playing = true) (hmono : d.twoUnits = false)
    (bytes : List (Option UInt8)) (words : List (Option UInt16)) :
    d.renderFrame bytes words =
      if d.dma16bit then renderMono d.sampleWord words d else renderMono d.sampleByte bytes d := by
  simp only [twoUnits, Bool.or_eq_false_iff] at hmono
  obtain ⟨hstereo, hsbpro⟩ := hmono
  cases h16 : d.dma16bit
  · have hoff : d.sbproStereo = false := by simpa [h16] using hsbpro
    simp [renderFrame, hd.pcm, hd.awake, hplay, hstereo, h16, hoff]
  · simp [renderFrame, hd.pcm, hd.awake, hplay, hstereo, h16]

theorem renderFrame_stereo (hd : d.Plain) (hplay : d.playing = true) (htwo : d.twoUnits = true)
    (bytes : List (Option UInt8)) (words : List (Option UInt16)) :
    d.renderFrame bytes words =
      if d.dma16bit then renderStereo d.sampleWord words d
      else renderStereo d.sampleByte bytes d := by
  cases h16 : d.dma16bit
  · have hon : (d.stereo || d.sbproStereo) = true := by simpa [twoUnits, h16] using htwo
    simp [renderFrame, hd.pcm, hd.awake, hplay, h16, hon]
  · have hon : d.stereo = true := by simpa [twoUnits, h16] using htwo
    simp [renderFrame, hd.pcm, hd.awake, hplay, h16, hon]

section Units

variable {α : Type} (sample : α → ℤ)

theorem renderMono_supplied {units : List α} (hunits : 2 ≤ units.length) (d : SbDsp) :
    (renderMono sample (units.map some) d).1 = d.takeUnit := by
  match units, hunits with
  | u :: _ :: _, _ => rfl

/-- A frame whose left unit came with an earlier one. -/
theorem renderStereo_rest {left : ℤ} (hleft : d.pendingStereoLeft = some left) {units : List α}
    (hunits : 2 ≤ units.length) :
    (renderStereo sample (units.map some) d).1 = { d with pendingStereoLeft := none }.takeUnit := by
  match units, hunits with
  | u :: _ :: _, _ =>
    unfold renderStereo
    rw [hleft]
    rfl

/-- A frame of two units; the second is not asked for where the first ended playback. -/
theorem renderStereo_pair (hleft : d.pendingStereoLeft = none) {units : List α}
    (hunits : 2 ≤ units.length) :
    (renderStereo sample (units.map some) d).1 =
      if d.takeUnit.playing then d.takeUnit.takeUnit else d.takeUnit := by
  match units, hunits with
  | u :: v :: _, _ =>
    unfold renderStereo
    rw [hleft]
    show (if d.takeUnit.playing then _ else _ : SbDsp × Option (ℤ × ℤ)).1 = _
    split <;> rfl

end Units

end SbDsp

structure Plentiful where
  bytes : ℕ → List UInt8
  words : ℕ → List UInt16
  two_bytes : ∀ k, 2 ≤ (bytes k).length
  two_words : ∀ k, 2 ≤ (words k).length

namespace SbDsp

/-- Frame after frame, with the interrupts taken in between. -/
def rendered (d : SbDsp) (supply : Plentiful) : ℕ → SbDsp
  | 0 => d
  | k + 1 => ((d.rendered supply k).takeIrqSource.1.renderFrame ((supply.bytes k).map some)
      ((supply.words k).map some)).1

def RaisesAt (d : SbDsp) (supply : Plentiful) : ℕ → Prop
  | 0 => False
  | k + 1 => (d.rendered supply (k + 1)).irqPending = true ∧
      (d.rendered supply (k + 1)).irqSource = (d.rendered supply k).dmaIrqSource

theorem takeIrqSource_eq (d : SbDsp) : d.takeIrqSource.1 = { d with irqPending := false } := by
  unfold takeIrqSource
  split
  · rfl
  · rename_i hidle
    rw [← Bool.eq_false_iff.mpr hidle]

theorem rendered_succ (d : SbDsp) (supply : Plentiful) (k : ℕ) :
    d.rendered supply (k + 1) = ({ d.rendered supply k with irqPending := false }.renderFrame
      ((supply.bytes k).map some) ((supply.words k).map some)).1 := by
  rw [rendered, takeIrqSource_eq]

variable {d : SbDsp}

theorem playing_of_frames {n : ℕ} (h : d.framesUntilNextIrq = some n) : d.playing = true := by
  by_contra hidle
  have hnone : d.framesUntilNextIrq = none := if_pos (by simpa using hidle)
  rw [hnone] at h
  cases h

variable (hd : d.Plain)
include hd

section

variable (hplay : d.playing = true)
include hplay

theorem Plain.frames_eq : d.framesUntilNextIrq = some (if d.twoUnits then
      (max d.blockRemaining 1 + (if d.pendingStereoLeft.isSome then 1 else 0) + 1) / 2
      else max d.blockRemaining 1) := by
  unfold framesUntilNextIrq
  rw [hplay, hd.pcm]
  simp only [Bool.not_true, Bool.false_eq_true, if_false, Option.isSome_none]
  exact (apply_ite some _ _ _).symm

def Nears (d d' : SbDsp) (k : ℕ) : Prop :=
  (k = 0 ∧ completions d.log < completions d'.log) ∨
    (0 < k ∧ completions d'.log = completions d.log ∧ d'.Plain ∧ d'.framesUntilNextIrq = some k)

/-- Units were fetched, and the block goes on. -/
theorem Plain.nears_more {k left : ℕ} {held : Option ℤ} {log : List Mark} (hpos : 0 < k)
    (hlog : completions log = completions d.log) (hframes : (if d.twoUnits then
      (max left 1 + (if held.isSome then 1 else 0) + 1) / 2 else max left 1) = k) :
    d.Nears { d with blockRemaining := left, pendingStereoLeft := held, log := log } k := by
  have hd' : Plain { d with blockRemaining := left, pendingStereoLeft := held, log := log } :=
    ⟨hd.pcm, hd.awake⟩
  exact .inr ⟨hpos, hlog, hd', (hd'.frames_eq hplay).trans (congrArg some hframes)⟩

variable {k : ℕ} (hk : d.framesUntilNextIrq = some (k + 1))
include hk

theorem Plain.nears_mono (hmono : d.twoUnits = false) : d.Nears d.takeUnit k := by
  rw [hd.frames_eq hplay, hmono] at hk
  have hmax : max d.blockRemaining 1 = k + 1 := Option.some.inj hk
  rcases Nat.eq_zero_or_pos k with hzero | hpos
  · exact .inl ⟨hzero, completes_of_last hplay (by omega)⟩
  · rw [takeUnit_more hplay (by omega)]
    refine hd.nears_more hplay hpos (completions_append _ rfl) ?_
    rw [hmono, if_neg Bool.false_ne_true]
    omega

theorem Plain.nears_rest (htwo : d.twoUnits = true)
    {left : ℤ} (hleft : d.pendingStereoLeft = some left) :
    d.Nears { d with pendingStereoLeft := none }.takeUnit k := by
  rw [hd.frames_eq hplay, htwo, hleft] at hk
  have hhalf : (max d.blockRemaining 1 + 1 + 1) / 2 = k + 1 := Option.some.inj hk
  rcases Nat.eq_zero_or_pos k with hzero | hpos
  · refine .inl ⟨hzero, ?_⟩
    exact completes_of_last (d := { d with pendingStereoLeft := none }) hplay
      (show d.blockRemaining ≤ 1 by omega)
  · rw [takeUnit_more (d := { d with pendingStereoLeft := none }) hplay
      (show 2 ≤ d.blockRemaining by omega)]
    refine hd.nears_more hplay hpos (completions_append _ rfl) ?_
    rw [htwo, if_pos rfl]
    show (max (d.blockRemaining - 1) 1 + 0 + 1) / 2 = k
    omega

theorem Plain.nears_pair (htwo : d.twoUnits = true) (hleft : d.pendingStereoLeft = none) :
    d.Nears (if d.takeUnit.playing then d.takeUnit.takeUnit else d.takeUnit) k := by
  rw [hd.frames_eq hplay, htwo, hleft] at hk
  have hhalf : (max d.blockRemaining 1 + 0 + 1) / 2 = k + 1 := Option.some.inj hk
  by_cases hlast : d.blockRemaining ≤ 1
  · -- the left unit completes the block, and what the right unit does keeps that
    have hraise := completes_of_last hplay hlast
    refine .inl ⟨by omega, ?_⟩
    split
    · exact Nat.lt_of_lt_of_le hraise (takeUnit_signals _).grows
    · exact hraise
  · -- the left unit leaves the block running
    rw [takeUnit_more hplay (by omega), if_pos hplay]
    rcases Nat.eq_zero_or_pos k with hzero | hpos
    · refine .inl ⟨hzero, ?_⟩
      have hraise := completes_of_last
        (d := { d with blockRemaining := d.blockRemaining - 1, log := d.log ++ [.fetched] }) hplay
        (show d.blockRemaining - 1 ≤ 1 by omega)
      rwa [completions_append _ rfl] at hraise
    · rw [takeUnit_more
        (d := { d with blockRemaining := d.blockRemaining - 1, log := d.log ++ [.fetched] }) hplay
        (show 2 ≤ d.blockRemaining - 1 by omega)]
      refine hd.nears_more hplay hpos ((completions_append _ rfl).trans (completions_append _ rfl)) ?_
      rw [htwo, hleft, if_pos rfl]
      show (max (d.blockRemaining - 1 - 1) 1 + 0 + 1) / 2 = k
      omega

end

theorem Plain.nears {bytes : List UInt8} {words : List UInt16}
    (hbytes : 2 ≤ bytes.length) (hwords : 2 ≤ words.length) {k : ℕ}
    (hk : d.framesUntilNextIrq = some (k + 1)) :
    d.Nears (d.renderFrame (bytes.map some) (words.map some)).1 k := by
  have hplay := playing_of_frames hk
  cases htwo : d.twoUnits with
  | false =>
    rw [renderFrame_mono hd hplay htwo]
    split <;> rw [renderMono_supplied _ (by assumption)] <;> exact hd.nears_mono hplay hk htwo
  | true =>
    rw [renderFrame_stereo hd hplay htwo]
    cases hleft : d.pendingStereoLeft with
    | some left =>
      split <;> rw [renderStereo_rest _ hleft (by assumption)] <;>
        exact hd.nears_rest hplay hk htwo hleft
    | none =>
      split <;> rw [renderStereo_pair _ hleft (by assumption)] <;>
        exact hd.nears_pair hplay hk htwo hleft

variable (supply : Plentiful)

theorem Plain.acknowledged : Plain { d with irqPending := false } := ⟨hd.pcm, hd.awake⟩

omit hd in
/-- One more frame with the interrupt taken before it: the named one raises it, and those before
count the prediction down. -/
theorem rendered_frame {k n : ℕ} (hplain : (d.rendered supply k).Plain)
    (hframes : (d.rendered supply k).framesUntilNextIrq = some (n + 1)) :
    (n = 0 ∧ d.RaisesAt supply (k + 1)) ∨ (0 < n ∧ ¬ d.RaisesAt supply (k + 1) ∧
      (d.rendered supply (k + 1)).Plain ∧
      (d.rendered supply (k + 1)).framesUntilNextIrq = some n) := by
  have hsignals := (renderFrame_fetches { d.rendered supply k with irqPending := false }
    ((supply.bytes k).map some) ((supply.words k).map some)).signals
  have hnears := hplain.acknowledged.nears (supply.two_bytes k) (supply.two_words k) hframes
  rw [← rendered_succ] at hsignals hnears
  rcases hnears with ⟨hzero, hmore⟩ | ⟨hpos, hsame, hnext, hleft⟩
  · exact .inl ⟨hzero, hsignals.raised hmore⟩
  · refine .inr ⟨hpos, fun hraise => ?_, hnext, hleft⟩
    exact Bool.false_ne_true ((hsignals.quiet hsame).1.symm.trans hraise.1)

/-- Up to the named frame no interrupt comes, and the prediction counts down with the frames. -/
theorem Plain.rendered {n : ℕ} (hn : d.framesUntilNextIrq = some n) (k : ℕ) (hk : k < n) :
    (d.rendered supply k).Plain ∧ (d.rendered supply k).framesUntilNextIrq = some (n - k) ∧
      ¬ d.RaisesAt supply k := by
  induction k with
  | zero => exact ⟨hd, hn, id⟩
  | succ k ih =>
    obtain ⟨hplain, hleft, -⟩ := ih (by omega)
    rw [show n - k = n - (k + 1) + 1 by omega] at hleft
    rcases rendered_frame supply hplain hleft with ⟨hzero, -⟩ | ⟨-, hquiet, hnext, hframes⟩
    · omega
    · exact ⟨hnext, hframes, hquiet⟩

theorem Plain.firstAt {n : ℕ}
    (hn : d.framesUntilNextIrq = some n) : FirstAt (d.RaisesAt supply) n := by
  refine ⟨fun k hk => (hd.rendered supply hn k hk).2.2, ?_⟩
  cases n with
  | zero =>
    -- the prediction is never zero
    exfalso
    rw [hd.frames_eq (playing_of_frames hn)] at hn
    have hzero := Option.some.inj hn
    split at hzero <;> omega
  | succ n =>
    obtain ⟨hplain, hleft, -⟩ := hd.rendered supply hn n (Nat.lt_succ_self n)
    rw [show n + 1 - n = 0 + 1 by omega] at hleft
    rcases rendered_frame supply hplain hleft with ⟨-, hraise⟩ | ⟨hbad, -⟩
    · exact hraise
    · exact absurd hbad (Nat.lt_irrefl 0)

/-- A halted channel raises no completion interrupt. -/
theorem Plain.not_raisesAt (hidle : d.playing = false) (k : ℕ) : ¬ d.RaisesAt supply k := by
  have hframe {e : SbDsp} (he : e.Plain) (hidle : e.playing = false)
      (bytes : List (Option UInt8)) (words : List (Option UInt16)) :
      ({ e with irqPending := false }.renderFrame bytes words).1 = { e with irqPending := false } := by
    simp [renderFrame, he.pcm, he.awake, hidle]
  have hhalted (k : ℕ) : (d.rendered supply k).Plain ∧ (d.rendered supply k).playing = false := by
    induction k with
    | zero => exact ⟨hd, hidle⟩
    | succ k ih =>
      rw [rendered_succ, hframe ih.1 ih.2]
      exact ⟨ih.1.acknowledged, ih.2⟩
  cases k with
  | zero => exact id
  | succ k =>
    intro hraise
    have hpending := hraise.1
    rw [rendered_succ, hframe (hhalted k).1 (hhalted k).2] at hpending
    exact Bool.false_ne_true hpending

/-- With no ADPCM and no pause, and a DMA that always supplies data, the prediction is the number
of the frame that raises the interrupt. -/
theorem Plain.frames_iff (n : ℕ) :
    d.framesUntilNextIrq = some n ↔ FirstAt (d.RaisesAt supply) n := by
  refine ⟨hd.firstAt supply, fun hfirst => ?_⟩
  cases hplay : d.playing with
  | false => exact absurd hfirst.2 (hd.not_raisesAt supply hplay n)
  | true =>
    have hframes := hd.frames_eq hplay
    rw [hframes]
    exact congrArg some ((hd.firstAt supply hframes).unique hfirst)

end SbDsp

/-- In every run that switches playback on only over a block with units left, the units fetched
and the blocks completed keep the block law; a unit raises the interrupt of its channel if and only
if it completes a block, and no step completes a block without; and outside ADPCM and pauses the
prediction is the frame that raises the interrupt, in every state. -/
theorem blocks_counted (events : List Event) (d : SbDsp) (supply : Plentiful) (n : ℕ) :
    (Runs.Along SbDsp.step StartsLoaded events SbDsp.default → Law (SbDsp.after events).log) ∧
      d.Signals d.takeUnit ∧
      (∀ event, completions d.log < completions (d.step event).log →
        (d.step event).irqPending = true ∧ (d.step event).irqSource = d.dmaIrqSource) ∧
      (d.Plain → (d.framesUntilNextIrq = some n ↔ FirstAt (d.RaisesAt supply) n)) :=
  ⟨fun hruns => (sound_default.exec events hruns).law, d.takeUnit_signals,
    fun _ => SbDsp.step_raises, fun hd => hd.frames_iff supply n⟩

def commands (bytes : List UInt8) : List Event := bytes.map (.writePort 0x22c ·)

def oneByte : Event := .renderFrame [some 0x80] []

def haltedRun : List Event :=
  commands [0x48, 0x01, 0x00, 0x1c] ++ [oneByte] ++ commands [0xd0, 0xd4] ++ [oneByte, oneByte] ++
    commands [0xda] ++ [oneByte, oneByte]

def silence : Plentiful where
  bytes _ := [0x80, 0x80]
  words _ := [0, 0]
  two_bytes _ := Nat.le_refl 2
  two_words _ := Nat.le_refl 2

theorem haltedRun_counted :
    (SbDsp.after haltedRun).log = [.armed 2, .fetched, .fetched, .completed (some 2), .fetched,
      .fetched, .completed none] ∧ Law (SbDsp.after haltedRun).log ∧
    FirstAt ((SbDsp.after (commands [0xb6, 0x20, 0x04, 0x00])).RaisesAt silence) 3 := by
  obtain ⟨hlaw, -, -, hframes⟩ := blocks_counted haltedRun
    (SbDsp.after (commands [0xb6, 0x20, 0x04, 0x00])) silence 3
  refine ⟨by decide +kernel, hlaw (by decide +kernel), (hframes ⟨?_, ?_⟩).mp ?_⟩
  · decide +kernel
  · decide +kernel
  · decide +kernel

/-- A single-cycle transfer of one byte that has ended, and a continue command: one more byte is
fetched, and one more completion interrupt raised. -/
theorem continued_after_end :
    ¬ Law (SbDsp.after
      (commands [0x14, 0x00, 0x00] ++ [oneByte] ++ commands [0xd4] ++ [oneByte])).log := by
  have hlog : (SbDsp.after
      (commands [0x14, 0x00, 0x00] ++ [oneByte] ++ commands [0xd4] ++ [oneByte])).log =
      [.armed 1, .fetched] ++ .completed none :: ([] ++ .fetched :: [.completed none]) := by
    decide +kernel
  intro hlaw
  obtain ⟨size, hmem⟩ := hlaw.idle hlog
  cases hmem

end IzarraVM.SoundBlaster
