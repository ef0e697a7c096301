import IzarraVM.CheckedRuns
import IzarraVM.CueDisc

/-! Where the tracks of a CUE sheet lie, on the timeline and in the files. -/
namespace IzarraVM.Cue

open Ide (TrackMode Track DataSector CdImage)

def framesOf (laid : List (CueTrack × DiscTrack)) : ℕ :=
  (laid.map fun q => q.1.pregapFrames + q.2.sectors).sum

def bytesBefore (laid : List (CueTrack × DiscTrack)) (file : ℕ) : ℕ :=
  ((laid.filter fun q => q.1.fileIndex = file).map fun q => q.2.sectors * q.1.mode.rawSize).sum

structure RawPlaced (files : List BuildFile) (laid : List (CueTrack × DiscTrack)) (p : CueTrack)
    (next : Option CueTrack) (file : BuildFile) (bytes : List UInt8) (t : DiscTrack) : Prop where
  offset : t.imageOffset = fileBase files p.fileIndex + bytesBefore laid p.fileIndex
  sectors : t.sectors = Layout.rawSectors bytes (bytesBefore laid p.fileIndex) p next
  fits : bytesBefore laid p.fileIndex + t.sectors * p.mode.rawSize ≤ bytes.length
  swapped : t.byteSwapped = (p.mode.isAudio && decide (file.fileType = CueFileType.motorola))

structure Placed (files : List BuildFile) (laid : List (CueTrack × DiscTrack)) (p : CueTrack)
    (next : Option CueTrack) (t : DiscTrack) : Prop where
  number : t.number = p.number
  mode : t.mode = p.mode
  startLba : t.startLba = (framesOf laid + p.pregapFrames) % 2 ^ 32
  raw : ∀ file bytes, files[p.fileIndex]? = some file → file.source = .raw bytes →
    RawPlaced files laid p next file bytes t
  audio : ∀ file source, files[p.fileIndex]? = some file → file.source = .audio source →
    p.mode.isAudio = true ∧ t.sectors = source.sectors

theorem framesOf_append (laid more : List (CueTrack × DiscTrack)) :
    framesOf (laid ++ more) = framesOf laid + framesOf more := by
  unfold framesOf
  rw [List.map_append, List.sum_append]

theorem framesOf_single (p : CueTrack) (t : DiscTrack) :
    framesOf [(p, t)] = p.pregapFrames + t.sectors := by
  simp [framesOf]

theorem bytesBefore_append (laid more : List (CueTrack × DiscTrack)) (file : ℕ) :
    bytesBefore (laid ++ more) file = bytesBefore laid file + bytesBefore more file := by
  unfold bytesBefore
  rw [List.filter_append, List.map_append, List.sum_append]

theorem bytesBefore_same {p : CueTrack} {t : DiscTrack} {file : ℕ} (h : p.fileIndex = file) :
    bytesBefore [(p, t)] file = t.sectors * p.mode.rawSize := by
  simp [bytesBefore, h]

theorem bytesBefore_other {p : CueTrack} {t : DiscTrack} {file : ℕ} (h : p.fileIndex ≠ file) :
    bytesBefore [(p, t)] file = 0 := by
  simp [bytesBefore, h]

structure Layout.Tracks (files : List BuildFile) (laid : List (CueTrack × DiscTrack)) (s : Layout) :
    Prop where
  tracks : s.tracks = laid.map Prod.snd
  discLba : s.discLba = framesOf laid % 2 ^ 32
  cursors : ∀ index file bytes, files[index]? = some file → file.source = .raw bytes →
    s.cursors index = bytesBefore laid index
  sources : ∀ q ∈ laid, ∀ file source, files[q.1.fileIndex]? = some file →
    file.source = .audio source → s.audioSources.lookup q.1.number = some source

theorem Layout.tracks_empty (files : List BuildFile) : Layout.empty.Tracks files [] :=
  ⟨rfl, rfl, fun _ _ _ _ _ => rfl, fun _ hq => absurd hq List.not_mem_nil⟩

variable {files : List BuildFile} {sheet : List CueTrack} {laid : List (CueTrack × DiscTrack)}
  {s s' : Layout} {p : CueTrack} {next : Option CueTrack} {file : BuildFile}

theorem framesOf_pushed {t : DiscTrack} {start sectors : ℕ}
    (hstart : start = (framesOf laid + p.pregapFrames) % 2 ^ 32) (hsectors : t.sectors = sectors) :
    (start + sectors) % 2 ^ 32 = framesOf (laid ++ [(p, t)]) % 2 ^ 32 := by
  rw [framesOf_append, framesOf_single, hstart, hsectors]
  omega

theorem Layout.Tracks.start (hs : s.Tracks files laid) :
    (s.discLba + p.pregapFrames) % 2 ^ 32 = (framesOf laid + p.pregapFrames) % 2 ^ 32 := by
  rw [hs.discLba]
  omega

theorem source_unique {index : ℕ} {file' : BuildFile} {source source' : CueSource}
    (hfile : files[index]? = some file) (h : file.source = source)
    (hfile' : files[index]? = some file') (h' : file'.source = source') : source = source' := by
  rw [hfile] at hfile'
  cases hfile'
  exact h.symm.trans h'

section

variable (hs : s.Tracks files laid)
include hs

theorem layAudio_placed {source : AudioTrackSource}
    (hfile : files[p.fileIndex]? = some file) (hsource : file.source = .audio source)
    (h : Layout.layAudio sheet s p file.name source ((s.discLba + p.pregapFrames) % 2 ^ 32) = .ok s') :
    ∃ t, Placed files laid p next t ∧ s'.Tracks files (laid ++ [(p, t)]) := by
  unfold Layout.layAudio at h
  split_ifs at h with hdata hshared htwice
  cases h
  have haudio : p.mode.isAudio = true := by simpa using hdata
  refine ⟨⟨⟨p.number, p.mode, _, source.sectors, 0⟩, false⟩, ⟨rfl, rfl, hs.start, ?_, ?_⟩, ?_⟩
  · intro file' bytes hfile' hraw
    cases source_unique hfile hsource hfile' hraw
  · intro file' source' hfile' hsource'
    cases source_unique hfile hsource hfile' hsource'
    exact ⟨haudio, rfl⟩
  · refine ⟨?_, framesOf_pushed hs.start rfl, ?_, ?_⟩
    · show s.tracks ++ _ = _
      rw [hs.tracks, List.map_append]
      rfl
    · -- the cursors stay, and the track is not of a raw file
      intro index file' bytes hfile' hraw
      have hother : p.fileIndex ≠ index := by
        rintro rfl
        cases source_unique hfile hsource hfile' hraw
      rw [bytesBefore_append, bytesBefore_other hother, Nat.add_zero]
      exact hs.cursors index file' bytes hfile' hraw
    · intro q hq file' source' hfile' hsource'
      show ((p.number, source) :: s.audioSources).lookup q.1.number = some source'
      rcases List.mem_append.mp hq with hold | hnew
      · have hbefore := hs.sources q hold file' source' hfile' hsource'
        have hne : (q.1.number == p.number) = false := by
          rw [beq_eq_false_iff_ne]
          intro heq
          rw [heq] at hbefore
          rw [hbefore] at htwice
          exact htwice rfl
        rw [List.lookup_cons, hne]
        exact hbefore
      · obtain rfl := List.mem_singleton.mp hnew
        cases source_unique hfile hsource hfile' hsource'
        rw [List.lookup_cons_self]

theorem layRaw_placed {bytes : List UInt8}
    (hfile : files[p.fileIndex]? = some file) (hsource : file.source = .raw bytes)
    (h : Layout.layRaw files s p next file bytes ((s.discLba + p.pregapFrames) % 2 ^ 32) = .ok s') :
    ∃ t, Placed files laid p next t ∧ s'.Tracks files (laid ++ [(p, t)]) := by
  unfold Layout.layRaw at h
  dsimp only at h
  have hcursor := hs.cursors p.fileIndex file bytes hfile hsource
  rw [hcursor] at h
  split_ifs at h with hpast
  cases h
  refine ⟨⟨⟨p.number, p.mode, _, Layout.rawSectors bytes (bytesBefore laid p.fileIndex) p next,
    fileBase files p.fileIndex + bytesBefore laid p.fileIndex⟩,
    p.mode.isAudio && decide (file.fileType = CueFileType.motorola)⟩, ⟨rfl, rfl, hs.start, ?_, ?_⟩, ?_⟩
  · intro file' bytes' hfile' hraw
    obtain rfl : file = file' := Option.some.inj (hfile.symm.trans hfile')
    rw [hsource] at hraw
    cases hraw
    exact ⟨rfl, rfl, Nat.le_of_not_lt hpast, rfl⟩
  · intro file' source' hfile' hsource'
    cases source_unique hfile hsource hfile' hsource'
  · refine ⟨?_, framesOf_pushed hs.start rfl, ?_, ?_⟩
    · show s.tracks ++ _ = _
      rw [hs.tracks, List.map_append]
      rfl
    · intro index file' bytes' hfile' hraw
      show Function.update s.cursors p.fileIndex _ index = _
      rw [bytesBefore_append]
      by_cases hsame : p.fileIndex = index
      · subst hsame
        rw [Function.update_self, bytesBefore_same rfl]
      · rw [Function.update_of_ne (Ne.symm hsame), bytesBefore_other hsame, Nat.add_zero]
        exact hs.cursors index file' bytes' hfile' hraw
    · intro q hq file' source' hfile' hsource'
      rcases List.mem_append.mp hq with hold | hnew
      · exact hs.sources q hold file' source' hfile' hsource'
      · obtain rfl := List.mem_singleton.mp hnew
        cases source_unique hfile hsource hfile' hsource'

theorem layTrack_placed (h : Layout.layTrack sheet files s p next = .ok s') :
    ∃ t, Placed files laid p next t ∧ s'.Tracks files (laid ++ [(p, t)]) := by
  unfold Layout.layTrack at h
  split at h
  · cases h
  · next file hfile =>
    dsimp only at h
    split at h
    · next source hsource => exact layAudio_placed hs hfile hsource h
    · next bytes hsource => exact layRaw_placed hs hfile hsource h

end

/-- The loop lays every track after the ones before it. -/
theorem layTracks_placed (rest : List CueTrack) : ∀ {s s' : Layout}
    {laid : List (CueTrack × DiscTrack)}, s.Tracks files laid →
    Layout.layTracks sheet files s rest = .ok s' →
    ∃ ts, ts.length = rest.length ∧ s'.Tracks files (laid ++ rest.zip ts) ∧
      ∀ i p t, rest[i]? = some p → ts[i]? = some t →
        Placed files (laid ++ (rest.zip ts).take i) p rest[i + 1]? t := by
  induction rest with
  | nil =>
    intro s s' laid hs h
    cases h
    refine ⟨[], rfl, ?_, nofun⟩
    rw [List.zip_nil_left, List.append_nil]
    exact hs
  | cons p rest ih =>
    intro s s' laid hs h
    obtain ⟨s₁, hfirst, hrest⟩ := Checked.of_bind_ok h
    obtain ⟨t, hplaced, hs₁⟩ := layTrack_placed hs hfirst
    obtain ⟨ts, hlength, hs', hall⟩ := ih hs₁ hrest
    refine ⟨t :: ts, by rw [List.length_cons, List.length_cons, hlength], ?_, ?_⟩
    · rw [List.zip_cons_cons]
      rw [List.append_assoc] at hs'
      exact hs'
    · intro i q u hq hu
      cases i with
      | zero =>
        cases hq
        cases hu
        rw [List.take_zero, List.append_nil, List.getElem?_cons_succ, ← List.head?_eq_getElem?]
        exact hplaced
      | succ i =>
        have hnext := hall i q u hq hu
        rw [List.append_assoc] at hnext
        exact hnext

structure Built (sheet : List CueTrack) (files : List BuildFile) (disc : Disc) : Prop where
  length : disc.tracks.length = sheet.length
  bytes : disc.bytes = files.flatMap BuildFile.rawBytes
  total : disc.totalSectors = framesOf (sheet.zip disc.tracks) % 2 ^ 32
  placed : ∀ (i : ℕ) (p : CueTrack) (t : DiscTrack), sheet[i]? = some p → disc.tracks[i]? = some t →
    Placed files ((sheet.zip disc.tracks).take i) p sheet[i + 1]? t
  sources : ∀ (i : ℕ) (p : CueTrack) (file : BuildFile) (source : AudioTrackSource),
    sheet[i]? = some p → files[p.fileIndex]? = some file → file.source = .audio source →
      disc.audioSource p.number = some source

theorem build_built {disc : Disc} (h : build sheet files = .ok disc) : Built sheet files disc := by
  unfold build at h
  split_ifs at h
  obtain ⟨s, hlaid, h⟩ := Checked.of_bind_ok h
  cases h
  obtain ⟨ts, hlength, hs, hplaced⟩ := layTracks_placed sheet (Layout.tracks_empty files) hlaid
  have htracks : s.tracks = ts := by
    rw [hs.tracks, List.nil_append, List.map_snd_zip (Nat.le_of_eq hlength)]
  subst htracks
  refine ⟨hlength, rfl, hs.discLba, hplaced, ?_⟩
  intro i p file source hp hfile hsource
  have hlt : i < sheet.length := (List.getElem?_eq_some_iff.mp hp).1
  obtain ⟨t, ht⟩ : ∃ t, s.tracks[i]? = some t :=
    ⟨_, List.getElem?_eq_getElem (by rw [hlength]; exact hlt)⟩
  have hmem : (p, t) ∈ sheet.zip s.tracks :=
    List.mem_of_getElem? (List.getElem?_zip_eq_some.mpr ⟨hp, ht⟩)
  exact hs.sources _ hmem file source hfile hsource

theorem framesOf_take_le (laid : List (CueTrack × DiscTrack)) {i j : ℕ} (h : i ≤ j) :
    framesOf (laid.take i) ≤ framesOf (laid.take j) := by
  obtain ⟨n, rfl⟩ := Nat.exists_eq_add_of_le h
  rw [List.take_add, framesOf_append]
  exact Nat.le_add_right _ _

theorem framesOf_take_le_all (laid : List (CueTrack × DiscTrack)) (i : ℕ) :
    framesOf (laid.take i) ≤ framesOf laid := by
  have hsplit := congrArg framesOf (List.take_append_drop i laid)
  rw [framesOf_append] at hsplit
  omega

theorem take_succ_zip {disc : Disc} {i : ℕ} {p : CueTrack} {t : DiscTrack} (hp : sheet[i]? = some p)
    (ht : disc.tracks[i]? = some t) :
    (sheet.zip disc.tracks).take (i + 1) = (sheet.zip disc.tracks).take i ++ [(p, t)] := by
  have hpair : (sheet.zip disc.tracks)[i]? = some (p, t) := List.getElem?_zip_eq_some.mpr ⟨hp, ht⟩
  rw [List.take_add_one, hpair]
  rfl

section Timeline

variable {disc : Disc} {i : ℕ} {t : DiscTrack} (hb : Built sheet files disc)
  (hframes : framesOf (sheet.zip disc.tracks) < 2 ^ 32)
include hb

theorem exists_cue (ht : disc.tracks[i]? = some t) : ∃ p, sheet[i]? = some p := by
  have hlt := (List.getElem?_eq_some_iff.mp ht).1
  exact ⟨_, List.getElem?_eq_getElem (by rw [← hb.length]; exact hlt)⟩

include hframes

/-- A track begins after all that comes before it and its own pregap. -/
theorem startLba_eq {p : CueTrack} (hp : sheet[i]? = some p) (ht : disc.tracks[i]? = some t) :
    t.startLba = framesOf ((sheet.zip disc.tracks).take i) + p.pregapFrames ∧
      t.endLba = framesOf ((sheet.zip disc.tracks).take (i + 1)) := by
  have hsucc : framesOf ((sheet.zip disc.tracks).take (i + 1)) =
      framesOf ((sheet.zip disc.tracks).take i) + (p.pregapFrames + t.sectors) := by
    rw [take_succ_zip hp ht, framesOf_append, framesOf_single]
  have hle := framesOf_take_le_all (sheet.zip disc.tracks) (i + 1)
  have hstart := (hb.placed i p t hp ht).startLba
  rw [Nat.mod_eq_of_lt (by omega)] at hstart
  refine ⟨hstart, ?_⟩
  rw [Track.endLba, hstart, hsucc]
  omega

theorem endLba_le_startLba {i j : ℕ} {t t' : DiscTrack} (hij : i < j)
    (ht : disc.tracks[i]? = some t) (ht' : disc.tracks[j]? = some t') : t.endLba ≤ t'.startLba := by
  obtain ⟨p, hp⟩ := exists_cue hb ht
  obtain ⟨p', hp'⟩ := exists_cue hb ht'
  have hend := (startLba_eq hb hframes hp ht).2
  have hstart := (startLba_eq hb hframes hp' ht').1
  have hle := framesOf_take_le (sheet.zip disc.tracks) (show i + 1 ≤ j from hij)
  omega

theorem index_unique {i j lba : ℕ} {t t' : DiscTrack} (ht : disc.tracks[i]? = some t)
    (ht' : disc.tracks[j]? = some t') (h : t.startLba ≤ lba ∧ lba < t.endLba)
    (h' : t'.startLba ≤ lba ∧ lba < t'.endLba) : i = j := by
  rcases Nat.lt_trichotomy i j with hlt | heq | hgt
  · have hle := endLba_le_startLba hb hframes hlt ht ht'
    omega
  · exact heq
  · have hle := endLba_le_startLba hb hframes hgt ht' ht
    omega

/-- The search finds the track whose sectors hold the LBA. -/
theorem trackAtLba_iff {lba : ℕ} : disc.trackAtLba lba = some t ↔
    ∃ i : ℕ, disc.tracks[i]? = some t ∧ t.startLba ≤ lba ∧ lba < t.endLba := by
  constructor
  · intro h
    obtain ⟨i, hi⟩ := List.mem_iff_getElem?.mp (List.mem_of_find?_eq_some h)
    have hin := List.find?_some h
    exact ⟨i, hi, of_decide_eq_true hin⟩
  · rintro ⟨i, hi, hin⟩
    cases hfound : disc.trackAtLba lba with
    | none =>
      have hnone := List.find?_eq_none.mp hfound t (List.mem_of_getElem? hi)
      exact absurd (decide_eq_true hin) hnone
    | some t' =>
      -- the first match is the only one
      obtain ⟨j, hj⟩ := List.mem_iff_getElem?.mp (List.mem_of_find?_eq_some hfound)
      have hmatch := List.find?_some hfound
      have hin' := of_decide_eq_true hmatch
      obtain rfl := index_unique hb hframes hi hj hin hin'
      exact hj.symm.trans hi

end Timeline

variable (bytes : List UInt8)

def frameOf (offset size : ℕ) : List UInt8 := (bytes.drop offset).take size

def userData (mode : TrackMode) (frame : List UInt8) : Option DataSector := do
  let payloadOffset ← mode.payloadOffset
  match mode.submodeOffset with
  | some submode =>
    let flags ← frame[submode]?
    if flags &&& 0x20 ≠ 0 then none else CdImage.payload frame payloadOffset
  | none => CdImage.payload frame payloadOffset

/-- The slice of the concatenation is the slice of the file. -/
theorem frameOf_concat {index : ℕ} (hfile : files[index]? = some file) {offset size : ℕ}
    (h : offset + size ≤ file.rawBytes.length) :
    frameOf (files.flatMap BuildFile.rawBytes) (fileBase files index + offset) size =
      frameOf file.rawBytes offset size := by
  obtain ⟨hlt, hget⟩ := List.getElem?_eq_some_iff.mp hfile
  have hsplit : files.flatMap BuildFile.rawBytes = (files.take index).flatMap BuildFile.rawBytes ++
      (file.rawBytes ++ (files.drop (index + 1)).flatMap BuildFile.rawBytes) := by
    conv_lhs => rw [← List.take_append_drop index files]
    rw [List.flatMap_append, List.drop_eq_getElem_cons hlt, hget, List.flatMap_cons]
  unfold frameOf fileBase
  rw [hsplit, List.drop_length_add_append, List.drop_append_of_le_length (by omega),
    List.take_append_of_le_length (by rw [List.length_drop]; omega)]

theorem frameOf_frameOf (offset size inner width : ℕ)
    (h : inner + width ≤ size) :
    frameOf (frameOf bytes offset size) inner width = frameOf bytes (offset + inner) width := by
  unfold frameOf
  rw [List.drop_take, List.take_take, List.drop_drop, Nat.min_eq_left (by omega)]

theorem payload_congr {a b : List UInt8} {i j : ℕ} (h : frameOf a i 2048 = frameOf b j 2048) :
    CdImage.payload a i = CdImage.payload b j := by
  unfold frameOf at h
  unfold CdImage.payload
  simp only [h]

theorem payload_frame (offset size inner : ℕ) (h : inner + 2048 ≤ size) :
    CdImage.payload bytes (offset + inner) = CdImage.payload (frameOf bytes offset size) inner :=
  payload_congr (frameOf_frameOf bytes offset size inner 2048 h).symm

theorem payloadOffset_fits {mode : TrackMode} {offset : ℕ} (h : mode.payloadOffset = some offset) :
    offset + 2048 ≤ mode.rawSize := by
  cases mode <;> cases h <;> decide

theorem submodeOffset_lt {mode : TrackMode} {offset : ℕ} (h : mode.submodeOffset = some offset) :
    offset < mode.rawSize := by
  cases mode <;> cases h <;> decide

theorem audio_fits {mode : TrackMode} (h : mode.isAudio = true) : 2352 ≤ mode.rawSize := by
  cases mode <;> first | decide | cases h

theorem audioFrame_frame (offset size : ℕ) (swapped : Bool)
    (h : 2352 ≤ size) :
    Disc.audioFrame bytes offset swapped = Disc.audioFrame (frameOf bytes offset size) 0 swapped := by
  have hslice := frameOf_frameOf bytes offset size 0 2352 (by omega)
  unfold frameOf at hslice
  rw [Nat.add_zero] at hslice
  unfold Disc.audioFrame frameOf
  simp only [hslice]

theorem audioFrame_plain {bytes : List UInt8} {offset : ℕ}
    (h : ((bytes.drop offset).take 2352).length = 2352) :
    Disc.audioFrame bytes offset false = some ⟨(bytes.drop offset).take 2352, h⟩ :=
  dif_pos h

theorem toImage_trackAtLba (disc : Disc) (lba : ℕ) :
    disc.toImage.trackAtLba lba = (disc.trackAtLba lba).map DiscTrack.toTrack := by
  unfold CdImage.trackAtLba Disc.trackAtLba Disc.toImage
  rw [List.find?_map]
  rfl

section

variable {disc : Disc} {lba : ℕ} {t : DiscTrack} (h : disc.trackAtLba lba = some t)
include h

/-- A read in a track decodes the stored frame it comes to. -/
theorem readDataSector_eq : disc.readDataSector lba =
      userData t.mode (frameOf disc.bytes (t.imageOffset + (lba - t.startLba) * t.mode.rawSize)
        t.mode.rawSize) := by
  unfold Disc.readDataSector CdImage.readDataSector userData
  rw [toImage_trackAtLba, h]
  show (t.mode.payloadOffset.bind fun _ => _) = (t.mode.payloadOffset.bind fun _ => _)
  cases hpayload : t.mode.payloadOffset with
  | none => rfl
  | some inner =>
    have hfits := payloadOffset_fits hpayload
    simp only [Option.bind_some, Disc.toImage]
    cases hsubmode : t.mode.submodeOffset with
    | none => exact payload_frame _ _ _ _ hfits
    | some submode =>
      have hlt := submodeOffset_lt hsubmode
      have hflags : ∀ offset, disc.bytes[offset + submode]? =
          (frameOf disc.bytes offset t.mode.rawSize)[submode]? := by
        intro offset
        unfold frameOf
        rw [List.getElem?_take_of_lt hlt, List.getElem?_drop]
      simp only [hflags, payload_frame disc.bytes _ _ inner hfits]

theorem readAudioFrame_eq (haudio : t.mode.isAudio = true)
    (hsource : disc.audioSource t.number = none) : disc.readAudioFrame lba =
      Disc.audioFrame (frameOf disc.bytes (t.imageOffset + (lba - t.startLba) * t.mode.rawSize)
        t.mode.rawSize) 0 t.byteSwapped := by
  unfold Disc.readAudioFrame
  rw [h]
  simp only [Option.bind_eq_bind, Option.bind_some, haudio, Bool.not_true, Bool.false_eq_true,
    if_false, hsource]
  exact audioFrame_frame _ _ _ _ (audio_fits haudio)

theorem readAudioFrame_decoded {source : AudioTrackSource} (haudio : t.mode.isAudio = true)
    (hsource : disc.audioSource t.number = some source) :
    disc.readAudioFrame lba = source.frame (lba - t.startLba) := by
  unfold Disc.readAudioFrame
  rw [h]
  simp only [Option.bind_eq_bind, Option.bind_some, haudio, Bool.not_true, Bool.false_eq_true,
    if_false, hsource]

end

structure FileRun (sheet : List CueTrack) (j i : ℕ) (first p : CueTrack) : Prop where
  le : j ≤ i
  first : sheet[j]? = some first
  last : sheet[i]? = some p
  fresh : ∀ (k : ℕ) (q : CueTrack), k < j → sheet[k]? = some q → q.fileIndex ≠ p.fileIndex
  same : ∀ (k : ℕ) (q : CueTrack), j ≤ k → k ≤ i → sheet[k]? = some q →
    q.fileIndex = p.fileIndex ∧ q.mode.rawSize = p.mode.rawSize
  rising : ∀ (k : ℕ) (q q' : CueTrack), j ≤ k → k < i → sheet[k]? = some q →
    sheet[k + 1]? = some q' → q.startFrame ≤ q'.startFrame

theorem FileRun.shorten {j n : ℕ} {first q p : CueTrack} (h : FileRun sheet j (j + (n + 1)) first p)
    (hq : sheet[j + n]? = some q) : FileRun sheet j (j + n) first q := by
  obtain ⟨hfile, hsize⟩ := h.same (j + n) q (by omega) (by omega) hq
  refine ⟨by omega, h.first, hq, ?_, ?_, ?_⟩
  · intro k r hk hr
    rw [hfile]
    exact h.fresh k r hk hr
  · intro k r hjk hki hr
    obtain ⟨hfile', hsize'⟩ := h.same k r hjk (by omega) hr
    exact ⟨hfile'.trans hfile.symm, hsize'.trans hsize.symm⟩
  · intro k r r' hjk hki
    exact h.rising k r r' hjk (by omega)

theorem bytesBefore_eq_zero {file : ℕ} (h : ∀ q ∈ laid, q.1.fileIndex ≠ file) :
    bytesBefore laid file = 0 := by
  have hnone : (laid.filter fun q => q.1.fileIndex = file) = [] := by
    rw [List.filter_eq_nil_iff]
    intro q hq
    rw [decide_eq_true_iff]
    exact h q hq
  unfold bytesBefore
  rw [hnone]
  rfl

theorem rawSectors_next {bytes : List UInt8} {cursor : ℕ} {n : CueTrack}
    (h : n.fileIndex = p.fileIndex) :
    Layout.rawSectors bytes cursor p (some n) = n.startFrame - p.startFrame := by
  unfold Layout.rawSectors
  rw [Option.filter_some, if_pos (decide_eq_true h)]

theorem rawSectors_last {bytes : List UInt8} {cursor : ℕ}
    (h : ∀ n, next = some n → n.fileIndex ≠ p.fileIndex) :
    Layout.rawSectors bytes cursor p next = (bytes.length - cursor) / p.mode.rawSize % 2 ^ 32 := by
  cases next with
  | none => rfl
  | some n =>
    have hne := h n rfl
    unfold Layout.rawSectors
    rw [Option.filter_some, if_neg (by rw [decide_eq_true_iff]; exact hne)]

/-- In a run the bytes before a track are the frames since the run's first `INDEX 01`. -/
theorem bytesBefore_run {disc : Disc} (hb : Built sheet files disc) {bytes : List UInt8} {j : ℕ}
    {first : CueTrack} (hraw : ∀ file, files[first.fileIndex]? = some file → file.source = .raw bytes)
    (hfile : files[first.fileIndex]?.isSome = true) (n : ℕ) : ∀ {p : CueTrack},
    FileRun sheet j (j + n) first p → first.startFrame ≤ p.startFrame ∧
      bytesBefore ((sheet.zip disc.tracks).take (j + n)) p.fileIndex =
        (p.startFrame - first.startFrame) * p.mode.rawSize := by
  induction n with
  | zero =>
    intro p h
    obtain rfl : first = p := Option.some.inj (h.first.symm.trans h.last)
    refine ⟨Nat.le_refl _, ?_⟩
    rw [Nat.sub_self, Nat.zero_mul]
    apply bytesBefore_eq_zero
    intro q hq
    obtain ⟨k, hk⟩ := List.mem_iff_getElem?.mp hq
    have hlt : k < j + 0 := by
      have hlen := (List.getElem?_eq_some_iff.mp hk).1
      rw [List.length_take] at hlen
      omega
    rw [List.getElem?_take_of_lt hlt] at hk
    exact h.fresh k q.1 hlt (List.getElem?_zip_eq_some.mp hk).1
  | succ n ih =>
    intro p h
    have hbound : j + n < sheet.length := by
      have hlen := (List.getElem?_eq_some_iff.mp h.last).1
      omega
    obtain ⟨q, hq⟩ : ∃ q, sheet[j + n]? = some q := ⟨_, List.getElem?_eq_getElem hbound⟩
    obtain ⟨t, ht⟩ : ∃ t, disc.tracks[j + n]? = some t :=
      ⟨_, List.getElem?_eq_getElem (by rw [hb.length]; exact hbound)⟩
    obtain ⟨hfirst, hbefore⟩ := ih (h.shorten hq)
    obtain ⟨hsame, hsize⟩ := h.same (j + n) q (by omega) (by omega) hq
    have hrise := h.rising (j + n) q p (by omega) (by omega) hq h.last
    have hfirstFile : first.fileIndex = q.fileIndex :=
      (h.same j first (Nat.le_refl j) (by omega) h.first).1.trans hsame.symm
    -- the track before takes the frames up to this one's `INDEX 01`
    have hsectors : t.sectors = p.startFrame - q.startFrame := by
      obtain ⟨file, hsome⟩ := Option.isSome_iff_exists.mp hfile
      have hplaced := (hb.placed (j + n) q t hq ht).raw file bytes (hfirstFile ▸ hsome)
        (hraw file hsome)
      have hnext : sheet[j + n + 1]? = some p := h.last
      rw [hplaced.sectors, hnext, rawSectors_next hsame.symm]
    refine ⟨by omega, ?_⟩
    have htake : (sheet.zip disc.tracks).take (j + (n + 1)) =
        (sheet.zip disc.tracks).take (j + n) ++ [(q, t)] := take_succ_zip hq ht
    rw [htake, bytesBefore_append, bytesBefore_same hsame, ← hsame, hbefore, hsectors, hsize,
      ← Nat.add_mul]
    congr 1
    omega

structure CueLaw (sheet : List CueTrack) (files : List BuildFile) (disc : Disc) : Prop where
  length : disc.tracks.length = sheet.length
  byNumber : sheet.Pairwise fun a b => a.number ≤ b.number
  follows : ∀ (i : ℕ) (t t' : DiscTrack) (p' : CueTrack), disc.tracks[i]? = some t →
    sheet[i + 1]? = some p' → disc.tracks[i + 1]? = some t' →
    t'.startLba = t.endLba + p'.pregapFrames
  begins : ∀ (t : DiscTrack) (p : CueTrack), disc.tracks[0]? = some t → sheet[0]? = some p →
    t.startLba = p.pregapFrames
  ascending : ∀ (i j : ℕ) (t t' : DiscTrack), i < j → disc.tracks[i]? = some t →
    disc.tracks[j]? = some t' → t.endLba ≤ t'.startLba
  found : ∀ (lba : ℕ) (t : DiscTrack), disc.trackAtLba lba = some t ↔
    ∃ i : ℕ, disc.tracks[i]? = some t ∧ t.startLba ≤ lba ∧ lba < t.endLba
  unique : ∀ (lba i j : ℕ) (t t' : DiscTrack), disc.tracks[i]? = some t → disc.tracks[j]? = some t' →
    t.startLba ≤ lba ∧ lba < t.endLba → t'.startLba ≤ lba ∧ lba < t'.endLba → i = j
  data : ∀ (i n : ℕ) (p : CueTrack) (t : DiscTrack) (file : BuildFile) (bytes : List UInt8),
    sheet[i]? = some p → disc.tracks[i]? = some t → files[p.fileIndex]? = some file →
    file.source = .raw bytes → n < t.sectors →
    disc.readDataSector (t.startLba + n) = userData p.mode (frameOf bytes
      (bytesBefore ((sheet.zip disc.tracks).take i) p.fileIndex + n * p.mode.rawSize) p.mode.rawSize)
  audio : ∀ (i n : ℕ) (p : CueTrack) (t : DiscTrack) (file : BuildFile) (bytes : List UInt8),
    sheet[i]? = some p → disc.tracks[i]? = some t → files[p.fileIndex]? = some file →
    file.source = .raw bytes → n < t.sectors → p.mode.isAudio = true →
    disc.audioSource p.number = none →
    disc.readAudioFrame (t.startLba + n) = Disc.audioFrame (frameOf bytes
      (bytesBefore ((sheet.zip disc.tracks).take i) p.fileIndex + n * p.mode.rawSize) p.mode.rawSize)
      0 (decide (file.fileType = CueFileType.motorola))
  decoded : ∀ (i n : ℕ) (p : CueTrack) (t : DiscTrack) (file : BuildFile) (source : AudioTrackSource),
    sheet[i]? = some p → disc.tracks[i]? = some t → files[p.fileIndex]? = some file →
    file.source = .audio source → t.sectors = source.sectors ∧
      (n < t.sectors → disc.readAudioFrame (t.startLba + n) = source.frame n)
  shared : ∀ (i : ℕ) (p p' : CueTrack) (t : DiscTrack) (file : BuildFile) (bytes : List UInt8),
    sheet[i]? = some p → disc.tracks[i]? = some t → files[p.fileIndex]? = some file →
    file.source = .raw bytes → sheet[i + 1]? = some p' → p'.fileIndex = p.fileIndex →
    t.sectors = p'.startFrame - p.startFrame ∧
      bytesBefore ((sheet.zip disc.tracks).take (i + 1)) p'.fileIndex =
        bytesBefore ((sheet.zip disc.tracks).take i) p.fileIndex + t.sectors * p.mode.rawSize
  toEnd : ∀ (i : ℕ) (p : CueTrack) (t : DiscTrack) (file : BuildFile) (bytes : List UInt8),
    sheet[i]? = some p → disc.tracks[i]? = some t → files[p.fileIndex]? = some file →
    file.source = .raw bytes → (∀ p', sheet[i + 1]? = some p' → p'.fileIndex ≠ p.fileIndex) →
    t.sectors = (bytes.length - bytesBefore ((sheet.zip disc.tracks).take i) p.fileIndex) /
      p.mode.rawSize % 2 ^ 32
  fits : ∀ (i : ℕ) (p : CueTrack) (t : DiscTrack) (file : BuildFile) (bytes : List UInt8),
    sheet[i]? = some p → disc.tracks[i]? = some t → files[p.fileIndex]? = some file →
    file.source = .raw bytes → bytesBefore ((sheet.zip disc.tracks).take i) p.fileIndex +
      t.sectors * p.mode.rawSize ≤ bytes.length
  index01 : ∀ (i j : ℕ) (first p : CueTrack) (file : BuildFile) (bytes : List UInt8),
    FileRun sheet j i first p → first.startFrame = 0 → files[p.fileIndex]? = some file →
    file.source = .raw bytes →
    bytesBefore ((sheet.zip disc.tracks).take i) p.fileIndex = p.startFrame * p.mode.rawSize

theorem parseCue_byNumber {cue : Text} {names : List CueFile}
    (h : parseCue cue = .ok (names, sheet)) : sheet.Pairwise fun a b => a.number ≤ b.number := by
  unfold parseCue at h
  obtain ⟨read, -, h⟩ := Checked.of_bind_ok h
  cases h
  have htotal : Std.Total fun a b : CueTrack => a.number ≤ b.number :=
    ⟨fun a b => UInt8.le_total a.number b.number⟩
  have htrans : IsTrans CueTrack fun a b => a.number ≤ b.number :=
    ⟨fun a b c hab hbc => UInt8.le_trans hab hbc⟩
  exact List.pairwise_insertionSort _ _

section Law

variable {disc : Disc} (hb : Built sheet files disc)
  (hframes : framesOf (sheet.zip disc.tracks) < 2 ^ 32)
include hb

/-- The frame a read comes to is a frame of the track's own file. -/
theorem frameOf_track {i n : ℕ} {p : CueTrack} {t : DiscTrack} {bytes : List UInt8}
    (hp : sheet[i]? = some p) (ht : disc.tracks[i]? = some t)
    (hfile : files[p.fileIndex]? = some file) (hraw : file.source = .raw bytes)
    (hn : n < t.sectors) :
    frameOf disc.bytes (t.imageOffset + (t.startLba + n - t.startLba) * p.mode.rawSize)
        p.mode.rawSize =
      frameOf bytes (bytesBefore ((sheet.zip disc.tracks).take i) p.fileIndex + n * p.mode.rawSize)
        p.mode.rawSize := by
  have hplaced := (hb.placed i p t hp ht).raw file bytes hfile hraw
  have hbytes : file.rawBytes = bytes := by
    unfold BuildFile.rawBytes
    rw [hraw]
  have hspan : n * p.mode.rawSize + p.mode.rawSize ≤ t.sectors * p.mode.rawSize := by
    rw [← Nat.succ_mul]
    exact Nat.mul_le_mul_right _ hn
  have hfits := hplaced.fits
  rw [hb.bytes, hplaced.offset, Nat.add_sub_cancel_left, Nat.add_assoc,
    frameOf_concat hfile (by rw [hbytes]; omega), hbytes]

include hframes

theorem trackAtLba_add {i n : ℕ} {t : DiscTrack} (ht : disc.tracks[i]? = some t)
    (hn : n < t.sectors) : disc.trackAtLba (t.startLba + n) = some t := by
  refine (trackAtLba_iff hb hframes).mpr ⟨i, ht, Nat.le_add_right _ _, ?_⟩
  rw [Track.endLba]
  omega

end Law

/-- Every sheet that is read and built, on a timeline that 32-bit positions can hold, is laid out so. -/
theorem cue_layout_law {cue : Text} {names : List CueFile} {disc : Disc}
    (hparse : parseCue cue = .ok (names, sheet)) (hbuild : build sheet files = .ok disc)
    (hframes : framesOf (sheet.zip disc.tracks) < 2 ^ 32) : CueLaw sheet files disc := by
  have hb := build_built hbuild
  refine
    { length := hb.length
      byNumber := parseCue_byNumber hparse
      follows := ?_
      begins := ?_
      ascending := fun i j t t' hij ht ht' => endLba_le_startLba hb hframes hij ht ht'
      found := fun lba t => trackAtLba_iff hb hframes
      unique := fun lba i j t t' ht ht' h h' => index_unique hb hframes ht ht' h h'
      data := ?_
      audio := ?_
      decoded := ?_
      shared := ?_
      toEnd := ?_
      fits := ?_
      index01 := ?_ }
  · intro i t t' p' ht hp' ht'
    obtain ⟨p, hp⟩ := exists_cue hb ht
    rw [(startLba_eq hb hframes hp ht).2, (startLba_eq hb hframes hp' ht').1]
  · intro t p ht hp
    have hstart := (startLba_eq hb hframes hp ht).1
    rw [List.take_zero] at hstart
    exact hstart.trans (Nat.zero_add _)
  · intro i n p t file bytes hp ht hfile hraw hn
    have hmode := (hb.placed i p t hp ht).mode
    rw [readDataSector_eq (trackAtLba_add hb hframes ht hn), hmode,
      frameOf_track hb hp ht hfile hraw hn]
  · intro i n p t file bytes hp ht hfile hraw hn haudio hsource
    have hplaced := hb.placed i p t hp ht
    have hswapped := (hplaced.raw file bytes hfile hraw).swapped
    rw [haudio, Bool.true_and] at hswapped
    rw [readAudioFrame_eq (trackAtLba_add hb hframes ht hn) (by rw [hplaced.mode]; exact haudio)
      (by rw [hplaced.number]; exact hsource), hplaced.mode,
      frameOf_track hb hp ht hfile hraw hn, hswapped]
  · intro i n p t file source hp ht hfile hsource
    have hplaced := hb.placed i p t hp ht
    obtain ⟨haudio, hsectors⟩ := hplaced.audio file source hfile hsource
    refine ⟨hsectors, fun hn => ?_⟩
    have hknown := hb.sources i p file source hp hfile hsource
    rw [readAudioFrame_decoded (trackAtLba_add hb hframes ht hn) (by rw [hplaced.mode]; exact haudio)
      (by rw [hplaced.number]; exact hknown), Nat.add_sub_cancel_left]
  · intro i p p' t file bytes hp ht hfile hraw hp' hsame
    have hsectors := ((hb.placed i p t hp ht).raw file bytes hfile hraw).sectors
    rw [hp', rawSectors_next hsame] at hsectors
    refine ⟨hsectors, ?_⟩
    rw [take_succ_zip hp ht, bytesBefore_append, bytesBefore_same hsame.symm, hsame]
  · intro i p t file bytes hp ht hfile hraw hlast
    rw [((hb.placed i p t hp ht).raw file bytes hfile hraw).sectors, rawSectors_last hlast]
  · intro i p t file bytes hp ht hfile hraw
    exact ((hb.placed i p t hp ht).raw file bytes hfile hraw).fits
  · intro i j first p file bytes hrun hzero hfile hraw
    obtain ⟨n, rfl⟩ := Nat.exists_eq_add_of_le hrun.le
    have hindex : first.fileIndex = p.fileIndex :=
      (hrun.same j first (Nat.le_refl j) hrun.le hrun.first).1
    have hraw' : ∀ file', files[first.fileIndex]? = some file' → file'.source = .raw bytes := by
      intro file' hfile'
      rw [hindex, hfile] at hfile'
      cases hfile'
      exact hraw
    obtain ⟨-, hbefore⟩ := bytesBefore_run hb hraw' (by rw [hindex, hfile]; rfl) n hrun
    rw [hbefore, hzero, Nat.sub_zero]

def mixedSheet : Text :=
  ("FILE disc.bin BINARY\nTRACK 01 MODE1/2048\nINDEX 01 00:00:00\n" ++
    "TRACK 02 AUDIO\nPREGAP 00:00:02\nINDEX 01 00:00:02\n").toList

def dataTrack : CueTrack := ⟨1, .mode1_2048, 0, 0, 0⟩

def audioTrack : CueTrack := ⟨2, .audio, 2, 2, 0⟩

theorem parse_mixedSheet :
    parseCue mixedSheet = .ok ([("disc.bin".toList, .binary)], [dataTrack, audioTrack]) := by
  decide +kernel

def binFile : BuildFile := ⟨"disc.bin".toList, .raw bytes, .binary⟩

def mixedDisc : Disc :=
  ⟨bytes, [⟨⟨1, .mode1_2048, 0, 2, 0⟩, false⟩, ⟨⟨2, .audio, 4, 3, 4096⟩, false⟩], [], 7⟩

/-- A raw track that fits, with its numbers given. -/
theorem layRaw_of_fits {bytes : List UInt8} {discLba cursor sectors span : ℕ}
    (hcursor : s.cursors p.fileIndex = cursor)
    (hsectors : Layout.rawSectors bytes cursor p next = sectors)
    (hspan : sectors * p.mode.rawSize = span) (hfits : cursor + span ≤ bytes.length) :
    Layout.layRaw files s p next file bytes discLba =
      .ok ({ s with cursors := Function.update s.cursors p.fileIndex (cursor + span) }.push p discLba
        sectors (fileBase files p.fileIndex + cursor)
        (p.mode.isAudio && decide (file.fileType = CueFileType.motorola))) := by
  unfold Layout.layRaw
  dsimp only
  rw [hcursor, hsectors, hspan, if_neg (Nat.not_lt.mpr hfits)]

theorem layTrack_raw {bytes : List UInt8} (hfile : files[p.fileIndex]? = some file)
    (hraw : file.source = .raw bytes) {discLba : ℕ}
    (hlba : (s.discLba + p.pregapFrames) % 2 ^ 32 = discLba) :
    Layout.layTrack sheet files s p next = Layout.layRaw files s p next file bytes discLba := by
  unfold Layout.layTrack
  rw [hfile]
  dsimp only
  rw [hraw, hlba]

theorem layTracks_cons {rest : List CueTrack}
    (h : Layout.layTrack sheet files s p rest.head? = .ok s') :
    Layout.layTracks sheet files s (p :: rest) = Layout.layTracks sheet files s' rest := by
  rw [Layout.layTracks, h]
  rfl

def afterData : Layout :=
  { Layout.empty with cursors := Function.update Layout.empty.cursors 0 (0 + 4096) }.push dataTrack 0
    2 (fileBase [binFile bytes] 0 + 0) false

def afterAudio : Layout :=
  { afterData bytes with
    cursors := Function.update (afterData bytes).cursors 0 (0 + 4096 + 7056) }.push audioTrack 4 3
      (fileBase [binFile bytes] 0 + (0 + 4096)) false

theorem tracks_afterAudio :
    (afterAudio bytes).tracks = (mixedDisc bytes).tracks := by
  have hbase : fileBase [binFile bytes] 0 = 0 := rfl
  unfold afterAudio afterData Layout.push
  rw [hbase]
  simp only [Nat.zero_add]
  rfl

theorem build_mixed {bytes : List UInt8} (h : bytes.length = 11152) :
    build [dataTrack, audioTrack] [binFile bytes] = .ok (mixedDisc bytes) := by
  have hfile : [binFile bytes][0]? = some (binFile bytes) := rfl
  have hlast : ∀ n, (none : Option CueTrack) = some n → n.fileIndex ≠ audioTrack.fileIndex := nofun
  have hsectors : Layout.rawSectors bytes (0 + 4096) audioTrack none = 3 := by
    rw [rawSectors_last hlast, h]
    decide
  have hfirst : Layout.layTrack [dataTrack, audioTrack] [binFile bytes] Layout.empty dataTrack
      (some audioTrack) = .ok (afterData bytes) := by
    rw [layTrack_raw hfile rfl (show (0 + 0) % 2 ^ 32 = 0 by decide)]
    exact layRaw_of_fits rfl (rawSectors_next rfl) rfl (by rw [h]; decide)
  have hlba : ((afterData bytes).discLba + audioTrack.pregapFrames) % 2 ^ 32 = 4 := by
    show ((0 + 2) % 2 ^ 32 + 2) % 2 ^ 32 = 4
    decide
  have hsecond : Layout.layTrack [dataTrack, audioTrack] [binFile bytes] (afterData bytes) audioTrack
      none = .ok (afterAudio bytes) := by
    rw [layTrack_raw hfile rfl hlba]
    exact layRaw_of_fits rfl hsectors rfl (by rw [h])
  have hlaid : Layout.layTracks [dataTrack, audioTrack] [binFile bytes] Layout.empty
      [dataTrack, audioTrack] = .ok (afterAudio bytes) := by
    rw [layTracks_cons hfirst, layTracks_cons hsecond, Layout.layTracks]
  have htotal : (afterAudio bytes).discLba = 7 := by
    show (4 + 3) % 2 ^ 32 = 7
    decide
  unfold build
  rw [if_neg (by simp), if_neg (by simp), hlaid]
  show Except.ok (Disc.mk ([binFile bytes].flatMap BuildFile.rawBytes) (afterAudio bytes).tracks _
    (afterAudio bytes).discLba) = Except.ok (mixedDisc bytes)
  rw [List.flatMap_singleton, tracks_afterAudio, htotal]
  rfl

def mixedBytes : List UInt8 := List.replicate 4096 0 ++ 0xbb :: List.replicate 7055 0

theorem length_mixedBytes : mixedBytes.length = 11152 := by
  rw [mixedBytes, List.length_append, List.length_cons, List.length_replicate,
    List.length_replicate]

theorem mixed_layout_law :
    CueLaw [dataTrack, audioTrack] [binFile mixedBytes] (mixedDisc mixedBytes) :=
  cue_layout_law parse_mixedSheet (build_mixed length_mixedBytes) (by decide +kernel)

/-- The audio is read from behind the data track's bytes, and not from its `INDEX 01` in audio
sectors. -/
theorem mixed_sizes_packed :
    parseCue mixedSheet = .ok ([("disc.bin".toList, .binary)], [dataTrack, audioTrack]) ∧
      build [dataTrack, audioTrack] [binFile mixedBytes] = .ok (mixedDisc mixedBytes) ∧
      ((mixedDisc mixedBytes).readAudioFrame 4).map (fun frame => frame.bytes.head?) =
        some (some 0xbb) ∧
      (frameOf mixedBytes (audioTrack.startFrame * audioTrack.mode.rawSize)
        audioTrack.mode.rawSize).head? = some 0 := by
  have htail : mixedBytes.drop 4096 = 0xbb :: List.replicate 7055 0 := by
    rw [mixedBytes, List.drop_append_of_le_length (by rw [List.length_replicate]),
      List.drop_replicate, Nat.sub_self, List.replicate_zero, List.nil_append]
  have hread : ∀ bytes, (mixedDisc bytes).readAudioFrame 4 = Disc.audioFrame bytes 4096 false :=
    fun _ => rfl
  refine ⟨parse_mixedSheet, build_mixed length_mixedBytes, ?_, ?_⟩
  · have hlength : ((mixedBytes.drop 4096).take 2352).length = 2352 := by
      rw [List.length_take, List.length_drop, length_mixedBytes]
      rfl
    rw [hread, audioFrame_plain hlength, Option.map_some]
    dsimp only
    rw [htail, List.take_succ_cons, List.head?_cons]
  · have hlater : mixedBytes.drop 4704 = List.replicate 6448 0 := by
      have hsplit : mixedBytes.drop 4704 = (mixedBytes.drop 4096).drop 608 := by
        rw [List.drop_drop]
      rw [hsplit, htail, List.drop_succ_cons, List.drop_replicate]
    show ((mixedBytes.drop 4704).take 2352).head? = _
    rw [hlater, List.take_replicate, List.head?_replicate]
    rfl

end IzarraVM.Cue
