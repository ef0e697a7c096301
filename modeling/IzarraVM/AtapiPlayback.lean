import IzarraVM.AtapiSense
import IzarraVM.LoopRun

/-! The audio player of the CD-ROM drive: its front panel and the mixer that draws frames. -/
namespace IzarraVM.Ide

namespace AtapiDevice

variable (d : AtapiDevice)

def frontPanelPlay : AtapiDevice :=
  if d.play.paused then
    { d with play :=
      { d.play with paused := false, playing := decide (d.play.currentLba < d.play.endLba) } }
  else
    match d.image with
    | none => d
    | some image =>
      match image.tracks.find? (·.mode.isAudio) with
      | none => d
      | some track => d.setPlayRange track.startLba image.totalSectors

def frontPanelPause : AtapiDevice :=
  if d.play.playing then { d with play := { d.play with playing := false, paused := true } } else d

def frontPanelStop : AtapiDevice := d.stopPlayback

def nextAudioTrackStart : Option ℕ :=
  if !d.play.playing && !d.play.paused then none
  else d.image.bind fun image =>
    (image.tracks.find? fun t => t.mode.isAudio ∧ d.play.currentLba < t.startLba).map (·.startLba)

def frontPanelNextTrack : AtapiDevice :=
  match d.nextAudioTrackStart with
  | none => d
  | some start => d.setPlayRange start ((d.image.map (·.totalSectors)).getD start)

def advancePlay (frames : ℕ) : AtapiDevice :=
  if d.play.playing then
    let lba := min (d.play.currentLba + frames) (2 ^ 32 - 1)
    if d.play.endLba ≤ lba then
      { d with play := { d.play with currentLba := d.play.endLba } }.stopPlayback
    else { d with play := { d.play with currentLba := lba } }
  else d

end AtapiDevice

inductive PlayerEvent where
  | drive (e : DriveEvent)
  | play
  | pause
  | stop
  | nextTrack
  | advance (frames : ℕ)

namespace AtapiDevice

def stepPlayer (d : AtapiDevice) : PlayerEvent → AtapiDevice
  | .drive e => d.next e
  | .play => d.frontPanelPlay
  | .pause => d.frontPanelPause
  | .stop => d.frontPanelStop
  | .nextTrack => d.frontPanelNextTrack
  | .advance frames => d.advancePlay frames

structure Ranged (d : AtapiDevice) : Prop where
  exclusive : ¬ (d.play.playing ∧ d.play.paused)
  within : d.play.playing ∨ d.play.paused →
    ∃ image ∈ d.image, d.play.currentLba < d.play.endLba ∧ d.play.endLba ≤ image.totalSectors

namespace Ranged

variable {d : AtapiDevice}

theorem of_silent (hplaying : d.play.playing = false) (hpaused : d.play.paused = false) :
    Ranged d := by
  constructor
  · rw [hplaying]
    exact fun h => Bool.false_ne_true h.1
  · rw [hplaying, hpaused]
    exact fun h => absurd h (by decide)

theorem of_range {image : CdImage} (himage : d.image = some image) {start last : ℕ}
    (hlast : last ≤ image.totalSectors) : Ranged (d.setPlayRange start last) := by
  constructor
  · exact fun h => Bool.false_ne_true h.2
  · rintro (hplaying | hpaused)
    · exact ⟨image, himage, of_decide_eq_true hplaying, hlast⟩
    · cases hpaused

theorem stopped : Ranged d.stopPlayback := of_silent rfl rfl

variable (h : Ranged d)
include h

theorem resumed (hpaused : d.play.paused = true) :
    Ranged { d with play :=
      { d.play with paused := false, playing := decide (d.play.currentLba < d.play.endLba) } } := by
  refine ⟨fun hboth => Bool.false_ne_true hboth.2, fun _ => ?_⟩
  exact h.within (Or.inr hpaused)

theorem held (hplaying : d.play.playing = true) :
    Ranged { d with play := { d.play with playing := false, paused := true } } := by
  refine ⟨fun hboth => Bool.false_ne_true hboth.1, fun _ => ?_⟩
  exact h.within (Or.inl hplaying)

theorem interrupted : Ranged d.interruptAudioForHeadMovement := by
  unfold interruptAudioForHeadMovement
  split_ifs
  · exact stopped
  · exact h

theorem readSectors (lba count : ℕ) : Ranged (d.readSectors lba count).2 := by
  unfold AtapiDevice.readSectors
  split
  · exact { h with }
  · split_ifs
    · exact h
    · exact { h with }
    · split
      · exact { h with }
      · exact h.interrupted

theorem startPlay (start last : ℕ) : Ranged (d.startPlay start last).2 := by
  unfold AtapiDevice.startPlay
  split
  · exact { h with }
  · rename_i image himage
    split_ifs with hoff
    · exact { h with }
    · exact of_range himage (Nat.le_of_not_lt fun hlast => hoff (Or.inr hlast))
    · exact { h with }

theorem pauseResume (cdb : Cdb) : Ranged (d.pauseResume cdb).2 := by
  unfold AtapiDevice.pauseResume
  dsimp only
  split_ifs with hresume hpaused hplaying
  · exact h.resumed hpaused
  · exact h
  · exact h.held hplaying
  · exact h

theorem startStopUnit (cdb : Cdb) : Ranged (d.startStopUnit cdb).2 := by
  unfold AtapiDevice.startStopUnit
  dsimp only
  split_ifs
  · exact { h with }
  · exact of_silent rfl rfl
  · exact { h with }
  · exact { h with }

theorem seek (cdb : Cdb) : Ranged (d.seek cdb).2 := by
  unfold AtapiDevice.seek
  split
  · exact { h with }
  · split_ifs
    · exact { h with }
    · exact h.interrupted

theorem readCd (cdb : Cdb) : Ranged (d.readCd cdb).2 := by
  unfold AtapiDevice.readCd
  dsimp only
  split
  · exact { h with }
  · split_ifs
    · exact h
    · exact { h with }
    · exact { h with }
    · exact h.readSectors _ _

theorem interpret (cdb : Cdb) : Ranged (d.interpret cdb).2 := by
  unfold AtapiDevice.interpret
  split
  case h_4 => exact h.startStopUnit cdb
  case h_7 | h_18 => exact h.readSectors _ _
  case h_8 => exact h.seek cdb
  case h_12 | h_13 => exact h.startPlay _ _
  case h_14 => exact h.pauseResume cdb
  case h_15 => exact stopped
  case h_20 => exact h.readCd cdb
  case h_2 | h_9 | h_16 | h_19 | h_21 => exact { h with }
  all_goals
    simp only [testUnitReady, inquiry, inquiryVpd, preventAllowRemoval, readCapacity, readToc,
      readHeader, modeSense10]
    repeat' split
    all_goals exact { h with }

theorem modeSelectData (params : List UInt8) : Ranged (d.modeSelectData params).2 := by
  by_cases hlong : 8 ≤ params.length
  · rw [modeSelectData_eq d hlong]
    dsimp only
    split_ifs
    · exact { h with }
    · exact { h with }
  · rw [AtapiDevice.modeSelectData, if_pos (Nat.lt_of_not_le hlong)]
    exact { h with }

theorem frontPanelPlay : Ranged d.frontPanelPlay := by
  unfold AtapiDevice.frontPanelPlay
  split_ifs with hpaused
  · exact h.resumed hpaused
  · split
    · exact h
    · rename_i image himage
      split
      · exact h
      · exact of_range himage le_rfl

theorem frontPanelNextTrack : Ranged d.frontPanelNextTrack := by
  unfold AtapiDevice.frontPanelNextTrack
  split
  · exact h
  · cases himage : d.image with
    | none => exact of_silent (by simp [setPlayRange]) rfl
    | some image => exact of_range himage le_rfl

theorem advancePlay (frames : ℕ) : Ranged (d.advancePlay frames) := by
  unfold AtapiDevice.advancePlay
  dsimp only
  split_ifs with hplaying hend
  · exact stopped
  · obtain ⟨image, himage, -, htotal⟩ := h.within (Or.inl hplaying)
    exact ⟨h.exclusive, fun _ => ⟨image, himage, Nat.lt_of_not_le hend, htotal⟩⟩
  · exact h

theorem step (e : PlayerEvent) : Ranged (d.stepPlayer e) := by
  cases e with
  | drive e =>
    cases e with
    | packet cdb =>
      obtain ⟨reason, hexec⟩ := d.execute_snd cdb
      show Ranged (d.execute cdb).2
      rw [hexec]
      exact { h.interpret cdb with }
    | parameters params => exact h.modeSelectData params
    | insert image => exact of_silent rfl rfl
    | eject => exact of_silent rfl rfl
  | play => exact h.frontPanelPlay
  | pause =>
    show Ranged d.frontPanelPause
    unfold frontPanelPause
    split_ifs with hplaying
    · exact h.held hplaying
    · exact h
  | stop => exact stopped
  | nextTrack => exact h.frontPanelNextTrack
  | advance frames => exact h.advancePlay frames

end Ranged

open Loop (Pass)

def coverTurn (image : CdImage) (last lba : ℕ) : Option (Pass ℕ Bool) :=
  if last ≤ lba then some (.done true)
  else match image.trackAtLba lba with
    | none => some (.done false)
    | some track =>
      if track.mode.isAudio then some (.next (min track.endLba last)) else some (.done false)

variable {image : CdImage} {last lba : ℕ}

theorem trackAtLba_some {track : Track} (h : image.trackAtLba lba = some track) :
    track ∈ image.tracks ∧ track.startLba ≤ lba ∧ lba < track.endLba :=
  ⟨List.mem_of_find?_eq_some h, by simpa using List.find?_some h⟩

/-- A turn that goes on has passed a sector, so the loop ends. -/
theorem run_coverTurn {fuel : ℕ} (hfuel : last - lba < fuel) :
    Loop.run (coverTurn image last) fuel lba = some (audioCovers image last fuel lba) := by
  induction fuel generalizing lba with
  | zero => exact absurd hfuel (Nat.not_lt_zero _)
  | succ fuel ih =>
    unfold Loop.run coverTurn audioCovers
    by_cases hend : last ≤ lba
    · rw [if_pos hend, if_pos hend]
    · rw [if_neg hend, if_neg hend]
      cases htrack : image.trackAtLba lba with
      | none => rfl
      | some track =>
        have hpassed := (trackAtLba_some htrack).2.2
        cases haudio : track.mode.isAudio with
        | false => simp only [haudio, Bool.false_eq_true, ↓reduceIte]
        | true =>
          simp only [haudio, ↓reduceIte]
          exact ih (by omega)

def Audio (image : CdImage) (lba : ℕ) : Prop :=
  ∃ track ∈ image.tracks, track.mode.isAudio ∧ track.startLba ≤ lba ∧ lba < track.endLba

theorem audio_of_covers {fuel : ℕ} (hfuel : last - lba < fuel)
    (h : audioCovers image last fuel lba = true) {sector : ℕ} (hfrom : lba ≤ sector)
    (hto : sector < last) : Audio image sector := by
  induction fuel generalizing lba with
  | zero => exact absurd hfuel (Nat.not_lt_zero _)
  | succ fuel ih =>
    rw [audioCovers, if_neg (by omega)] at h
    cases htrack : image.trackAtLba lba with
    | none => rw [htrack] at h; cases h
    | some track =>
      obtain ⟨hmem, hstart, hpassed⟩ := trackAtLba_some htrack
      simp only [htrack] at h
      split_ifs at h with haudio
      by_cases hin : sector < track.endLba
      · exact ⟨track, hmem, haudio, hstart.trans hfrom, hin⟩
      · exact ih (by omega) h (by omega)

theorem audio_of_startPlay {d : AtapiDevice} {start last : ℕ}
    (h : (d.startPlay start last).1 ≠ .error) :
    ∃ image ∈ d.image, ∀ sector, (d.startPlay start last).2.play.currentLba ≤ sector →
      sector < (d.startPlay start last).2.play.endLba → Audio image sector := by
  unfold startPlay at h ⊢
  split at h
  · exact absurd rfl h
  · rename_i image himage
    split_ifs at h with hoff hcovers
    · exact absurd rfl h
    · refine ⟨image, himage, fun sector hfrom hto => ?_⟩
      simp only [if_neg hoff, if_pos hcovers] at hfrom hto
      exact audio_of_covers (Nat.lt_succ_self _) hcovers hfrom hto
    · exact absurd rfl h

end AtapiDevice

open AtapiDevice in
/-- Whatever commands, panel keys, disc changes and played frames came before, the player does not
play and pause at once, and a range it plays or holds has sectors left and ends on the disc. The
range check of PLAY AUDIO always ends, and a range it lets through is audio sector for sector. -/
theorem playback_law (events : List PlayerEvent) (cdb : Cdb) (image : CdImage) (start last : ℕ) :
    let d := Runs.exec stepPlayer events .new
    let d' := (d.execute cdb).2
    ¬ (d.play.playing ∧ d.play.paused) ∧
    (d.play.playing ∨ d.play.paused → ∃ image ∈ d.image,
      d.play.currentLba < d.play.endLba ∧ d.play.endLba ≤ image.totalSectors) ∧
    Loop.run (coverTurn image last) (last - start + 1) start =
      some (audioCovers image last (last - start + 1) start) ∧
    (cdb.opcode = 0x45 ∨ cdb.opcode = 0x47 → (d.execute cdb).1 ≠ .error →
      ∃ image ∈ d.image, ∀ sector, d'.play.currentLba ≤ sector → sector < d'.play.endLba →
        Audio image sector) := by
  intro d d'
  have hranged : Ranged d :=
    List.foldlRecOn (motive := Ranged) events _ (.of_silent rfl rfl) fun _ h e _ => h.step e
  refine ⟨hranged.exclusive, hranged.within, run_coverTurn (Nat.lt_succ_self _), fun hop h => ?_⟩
  obtain ⟨reason, hexec⟩ := d.execute_snd cdb
  rw [show d'.play = (d.interpret cdb).2.play by rw [show d' = _ from hexec]]
  rw [execute_fst] at h
  unfold interpret at h ⊢
  rcases hop with hop | hop
  · rw [hop] at h ⊢
    exact audio_of_startPlay h
  · rw [hop] at h ⊢
    exact audio_of_startPlay h

end IzarraVM.Ide
