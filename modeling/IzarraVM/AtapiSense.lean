import IzarraVM.Atapi
import IzarraVM.StepRuns

/-! What a packet command of the CD-ROM drive can do, and what REQUEST SENSE reports of it. -/
namespace IzarraVM.Ide

namespace AtapiDevice

structure SenseKept (d d' : AtapiDevice) : Prop where
  key : d'.senseKey = d.senseKey
  asc : d'.asc = d.asc
  information : d'.senseInformation = d.senseInformation
  changed : d'.mediaChanged = d.mediaChanged
  log : d'.log = d.log

theorem SenseKept.rfl {d : AtapiDevice} : SenseKept d d :=
  ⟨.refl _, .refl _, .refl _, .refl _, .refl _⟩

inductive Outcome (d : AtapiDevice) (cdb : Cdb) : CmdResult × AtapiDevice → Prop
  | failed (key : UInt8) (code : UInt8 × UInt8) (hcode : code ≠ Asc.lbaOutOfRange)
      (hattention : code ≠ Asc.mediumMayHaveChanged) : Outcome d cdb (d.fail key code)
  | outOfRange : Outcome d cdb
      (d.failAtLba SenseKey.illegalRequest Asc.lbaOutOfRange (cdb.be32 2))
  | attention (hop : cdb.opcode = 0x00) (himage : d.image ≠ none) (hchanged : d.mediaChanged = true) :
      Outcome d cdb
        ({ d with mediaChanged := false }.fail SenseKey.unitAttention Asc.mediumMayHaveChanged)
  | sensed : Outcome d cdb (d.requestSense cdb)
  | ejected : Outcome d cdb (.data [], d.eject)
  | done (buf : List UInt8) (d' : AtapiDevice) (hkept : SenseKept d d') :
      Outcome d cdb (.data buf, d')

namespace Outcome

variable {d : AtapiDevice} {cdb : Cdb}

theorem notReady : Outcome d cdb (d.fail SenseKey.notReady Asc.notReadyNoMedium) :=
  .failed _ _ (by decide) (by decide)

theorem illegal : Outcome d cdb (d.fail SenseKey.illegalRequest Asc.invalidFieldInCdb) :=
  .failed _ _ (by decide) (by decide)

theorem startStopUnit : Outcome d cdb (d.startStopUnit cdb) := by
  unfold AtapiDevice.startStopUnit
  dsimp only
  split_ifs
  · exact .failed _ _ (by decide) (by decide)
  · exact .ejected
  · exact .done _ _ ⟨rfl, rfl, rfl, rfl, rfl⟩
  · exact .done _ _ ⟨rfl, rfl, rfl, rfl, rfl⟩

theorem replied (buf : List UInt8) : Outcome d cdb (.data buf, d) :=
  .done buf d .rfl

theorem moved (buf : List UInt8) : Outcome d cdb (.data buf, d.interruptAudioForHeadMovement) := by
  refine .done buf _ ?_
  unfold interruptAudioForHeadMovement stopPlayback
  split <;> exact ⟨rfl, rfl, rfl, rfl, rfl⟩

theorem testUnitReady (hop : cdb.opcode = 0x00) : Outcome d cdb d.testUnitReady := by
  unfold AtapiDevice.testUnitReady
  split_ifs with hnone hchanged
  · exact notReady
  · exact .attention hop (by simpa using hnone) hchanged
  · exact replied _

theorem inquiry : Outcome d cdb (d.inquiry cdb) := by
  unfold AtapiDevice.inquiry inquiryVpd
  simp only
  split_ifs
  all_goals first
    | exact illegal
    | exact replied _

theorem preventAllowRemoval : Outcome d cdb (d.preventAllowRemoval cdb) := by
  unfold AtapiDevice.preventAllowRemoval
  simp only
  split_ifs
  · exact notReady
  · exact .done _ _ ⟨rfl, rfl, rfl, rfl, rfl⟩

theorem readCapacity : Outcome d cdb d.readCapacity := by
  unfold AtapiDevice.readCapacity
  split
  · exact notReady
  · exact replied _

theorem readSectors (count : ℕ) : Outcome d cdb (d.readSectors (cdb.be32 2) count) := by
  unfold AtapiDevice.readSectors
  split
  · exact notReady
  · split_ifs
    · exact replied _
    · exact .outOfRange
    · split
      · exact illegal
      · exact moved _

theorem readCd : Outcome d cdb (d.readCd cdb) := by
  unfold AtapiDevice.readCd
  simp only
  split
  · exact notReady
  · split_ifs
    · exact replied _
    · exact .outOfRange
    · exact illegal
    · exact readSectors _

theorem seek : Outcome d cdb (d.seek cdb) := by
  unfold AtapiDevice.seek
  split
  · exact notReady
  · split_ifs
    · exact .outOfRange
    · exact moved _

theorem readHeader : Outcome d cdb (d.readHeader cdb) := by
  unfold AtapiDevice.readHeader
  simp only
  split
  · exact notReady
  · split_ifs
    · exact .outOfRange
    · exact replied _

theorem readToc : Outcome d cdb (d.readToc cdb) := by
  unfold AtapiDevice.readToc
  simp only
  split
  · exact notReady
  · split_ifs
    all_goals exact replied _

theorem modeSense10 : Outcome d cdb (d.modeSense10 cdb) := by
  unfold AtapiDevice.modeSense10
  simp only
  split_ifs
  all_goals first
    | exact illegal
    | exact replied _

theorem startPlay (start last : ℕ) : Outcome d cdb (d.startPlay start last) := by
  unfold AtapiDevice.startPlay
  split
  · exact notReady
  · split_ifs
    · exact illegal
    · exact .done _ _ ⟨rfl, rfl, rfl, rfl, rfl⟩
    · exact illegal

end Outcome

variable (d : AtapiDevice)

theorem interpret_outcome (cdb : Cdb) : Outcome d cdb (d.interpret cdb) := by
  unfold interpret
  split
  case h_1 hop => exact .testUnitReady hop
  case h_2 => exact .sensed
  case h_3 => exact .inquiry
  case h_4 => exact .startStopUnit
  case h_5 => exact .preventAllowRemoval
  case h_6 => exact .readCapacity
  case h_8 => exact .seek
  case h_10 => exact .readToc
  case h_11 => exact .readHeader
  case h_12 | h_13 => exact .startPlay _ _
  case h_14 | h_15 => exact .done _ _ ⟨rfl, rfl, rfl, rfl, rfl⟩
  case h_9 | h_16 | h_19 => exact .replied _
  case h_17 => exact .modeSense10
  case h_7 | h_18 => exact .readSectors _
  case h_20 => exact .readCd
  case h_21 => exact .failed _ _ (by decide) (by decide)

theorem execute_fst (cdb : Cdb) : (d.execute cdb).1 = (d.interpret cdb).1 := by
  unfold execute
  split
  · rename_i heq
    rw [heq]
  · rename_i heq
    rw [heq]

theorem execute_snd (cdb : Cdb) :
    ∃ reason, (d.execute cdb).2 = { (d.interpret cdb).2 with interruptReason := reason } := by
  unfold execute
  split
  · rename_i heq
    rw [heq]
    exact ⟨_, rfl⟩
  · rename_i heq
    rw [heq]
    exact ⟨_, rfl⟩

structure Untouched (d d' : AtapiDevice) : Prop where
  image : d'.image = d.image
  play : d'.play = d.play
  volume : d'.audioVolume = d.audioVolume
  removal : d'.preventRemoval = d.preventRemoval
  started : d'.started = d.started

theorem Outcome.untouched {d : AtapiDevice} {cdb : Cdb} {result : CmdResult × AtapiDevice}
    (h : Outcome d cdb result) (herror : result.1 = .error) : Untouched d result.2 := by
  cases h with
  | failed => exact ⟨rfl, rfl, rfl, rfl, rfl⟩
  | outOfRange => exact ⟨rfl, rfl, rfl, rfl, rfl⟩
  | attention => exact ⟨rfl, rfl, rfl, rfl, rfl⟩
  | sensed => cases herror
  | ejected => cases herror
  | done => cases herror

theorem execute_untouched {d : AtapiDevice} {cdb : Cdb} (h : (d.execute cdb).1 = .error) :
    Untouched d (d.execute cdb).2 := by
  rw [execute_fst] at h
  obtain ⟨reason, heq⟩ := d.execute_snd cdb
  have hu := (d.interpret_outcome cdb).untouched h
  rw [heq]
  exact { hu with }

abbrev ModePage := UInt8 × List UInt8

def modePages (params : List UInt8) : ℕ → ℕ → List ModePage × Bool
  | 0, _ => ([], false)
  | fuel + 1, idx =>
    if params.length < idx + 2 then ([], false)
    else
      let bodyStart := idx + 2
      let bodyEnd := bodyStart + (params.getD (idx + 1) 0).toNat
      if params.length < bodyEnd then ([], true)
      else
        let page := (params.getD idx 0 &&& 0x3F, (params.drop bodyStart).take (bodyEnd - bodyStart))
        let (pages, overrun) := modePages params fuel bodyEnd
        (page :: pages, overrun)

def listedPages (params : List UInt8) : List ModePage × Bool :=
  modePages params params.length (8 + ((params.getD 6 0).toNat * 256 + (params.getD 7 0).toNat))

def applyPage (page : ModePage) : AtapiDevice :=
  if page.1 = 0x0E then d.applyAudioPage page.2 else d

theorem applyPages_eq (params : List UInt8) (fuel : ℕ) (d : AtapiDevice) (idx : ℕ) :
    applyPages params fuel d idx =
      if (modePages params fuel idx).2 then
        ((modePages params fuel idx).1.foldl applyPage d).fail SenseKey.illegalRequest
          Asc.invalidFieldInCdb
      else (.data [], (modePages params fuel idx).1.foldl applyPage d) := by
  induction fuel generalizing d idx with
  | zero => rfl
  | succ fuel ih =>
    unfold applyPages modePages
    by_cases hend : params.length < idx + 2
    · simp only [if_pos hend]
      rfl
    · simp only [if_neg hend]
      by_cases hover : params.length < idx + 2 + (params.getD (idx + 1) 0).toNat
      · simp only [if_pos hover]
        rfl
      · simp only [if_neg hover, ih, List.foldl_cons]
        rfl

def lastVolume (i : ℕ) (pages : List ModePage) : Option UInt8 :=
  ((pages.filter fun page => page.1 = 0x0E ∧ i < page.2.length).getLast?).map (·.2.getD i 0)

theorem lastVolume_append (i : ℕ) (pages : List ModePage) (page : ModePage) :
    lastVolume i (pages ++ [page]) =
      if page.1 = 0x0E ∧ i < page.2.length then some (page.2.getD i 0) else lastVolume i pages := by
  unfold lastVolume
  rw [List.filter_append]
  by_cases h : page.1 = 0x0E ∧ i < page.2.length
  · rw [if_pos h, List.filter_cons_of_pos (by simpa using h), List.filter_nil,
      List.getLast?_concat]
    rfl
  · rw [if_neg h, List.filter_cons_of_neg (by simpa using h), List.filter_nil, List.append_nil]

/-- Pages in turn leave each port the last volume named for it. -/
theorem foldl_applyPage (pages : List ModePage) (d : AtapiDevice) :
    pages.foldl applyPage d = { d with audioVolume :=
      ((lastVolume 7 pages).getD d.audioVolume.1, (lastVolume 9 pages).getD d.audioVolume.2) } := by
  induction pages using List.reverseRecOn with
  | nil => rfl
  | append_singleton pages page ih =>
    rw [List.foldl_append, List.foldl_cons, List.foldl_nil, ih, lastVolume_append,
      lastVolume_append, applyPage]
    by_cases haudio : page.1 = 0x0E
    · rw [if_pos haudio, applyAudioPage]
      simp only [haudio, true_and]
      congr 2
      · by_cases hlen : 7 < page.2.length
        · rw [if_pos hlen, if_pos (show 8 ≤ page.2.length from hlen), Option.getD_some]
        · rw [if_neg hlen, if_neg (show ¬ 8 ≤ page.2.length from hlen)]
      · by_cases hlen : 9 < page.2.length
        · rw [if_pos hlen, if_pos (show 10 ≤ page.2.length from hlen), Option.getD_some]
        · rw [if_neg hlen, if_neg (show ¬ 10 ≤ page.2.length from hlen)]
    · rw [if_neg haudio, if_neg fun h => haudio h.1, if_neg fun h => haudio h.1]

def NamesVolumes (volume : UInt8 × UInt8) (pages : List ModePage) : Prop :=
  (∀ v ∈ lastVolume 7 pages, v = volume.1) ∧ ∀ v ∈ lastVolume 9 pages, v = volume.2

theorem modeSelectData_eq {params : List UInt8} (h : 8 ≤ params.length) :
    d.modeSelectData params =
      let d' : AtapiDevice := { d with
        interruptReason := InterruptReason.commandComplete
        audioVolume := ((lastVolume 7 (listedPages params).1).getD d.audioVolume.1,
          (lastVolume 9 (listedPages params).1).getD d.audioVolume.2) }
      if (listedPages params).2 then d'.fail SenseKey.illegalRequest Asc.invalidFieldInCdb
      else (.data [], d') := by
  unfold modeSelectData
  simp only
  rw [if_neg (Nat.not_lt.mpr h), applyPages_eq, foldl_applyPage]
  rfl

theorem modeSelectData_untouched (params : List UInt8) :
    ((d.modeSelectData params).1 = .error → Untouched d (d.modeSelectData params).2) ↔
      (8 ≤ params.length → (listedPages params).2 = true →
        NamesVolumes d.audioVolume (listedPages params).1) := by
  have hgetD (o : Option UInt8) (v : UInt8) : o.getD v = v ↔ ∀ w ∈ o, w = v := by
    cases o <;> simp
  by_cases hlong : 8 ≤ params.length
  · rw [modeSelectData_eq d hlong]
    cases hover : (listedPages params).2 with
    | false =>
      refine iff_of_true (fun h => ?_) fun _ h => absurd h Bool.false_ne_true
      cases h
    | true =>
      refine ⟨fun h _ _ => ?_, fun h _ => ?_⟩
      · have hvolume := (h rfl).volume
        exact ⟨(hgetD _ _).mp (congrArg Prod.fst hvolume), (hgetD _ _).mp (congrArg Prod.snd hvolume)⟩
      · obtain ⟨hleft, hright⟩ := h hlong rfl
        refine ⟨rfl, rfl, ?_, rfl, rfl⟩
        exact Prod.ext ((hgetD _ _).mpr hleft) ((hgetD _ _).mpr hright)
  · refine iff_of_true (fun _ => ?_) fun h => absurd h hlong
    rw [modeSelectData, if_pos (Nat.lt_of_not_le hlong)]
    exact ⟨rfl, rfl, rfl, rfl, rfl⟩

end AtapiDevice

/-- A command or a parameter list that ends in CHECK CONDITION leaves medium, playback, volumes,
removal lock and spin state, unless pages ahead of an overrunning one set a volume anew. -/
theorem failure_untouched_iff (d : AtapiDevice) (cdb : Cdb) (params : List UInt8) :
    (((d.execute cdb).1 = .error → d.Untouched (d.execute cdb).2) ∧
      ((d.modeSelectData params).1 = .error → d.Untouched (d.modeSelectData params).2)) ↔
    (8 ≤ params.length → (AtapiDevice.listedPages params).2 = true →
      AtapiDevice.NamesVolumes d.audioVolume (AtapiDevice.listedPages params).1) := by
  rw [AtapiDevice.modeSelectData_untouched]
  exact and_iff_right AtapiDevice.execute_untouched

/-- An audio control page that mutes both ports, and a page cut short behind it. -/
theorem volume_set_by_failure :
    let params : List UInt8 := [0, 0, 0, 0, 0, 0, 0, 0] ++ [0x0E, 10, 0, 0, 0, 0, 0, 0, 0, 0, 0, 0] ++
      [0x2A, 20]
    (AtapiDevice.new.modeSelectData params).1 = .error ∧
      (AtapiDevice.new.modeSelectData params).2.audioVolume ≠ AtapiDevice.new.audioVolume := by
  refine ⟨rfl, by decide⟩

inductive DriveEvent where
  | packet (cdb : Cdb)
  | parameters (params : List UInt8)
  | insert (image : CdImage)
  | eject

namespace AtapiDevice

def next (d : AtapiDevice) : DriveEvent → AtapiDevice
  | .packet cdb => (d.execute cdb).2
  | .parameters params => (d.modeSelectData params).2
  | .insert image => d.insert image
  | .eject => d.eject

end AtapiDevice

/-- The latest failure since sense was last asked for. -/
def lastFault : List Entry → UInt8 × (UInt8 × UInt8) × Option ℕ
  | [] | .sensed :: _ => (SenseKey.noSense, Asc.noAdditional, none)
  | .fault key code address :: _ => (key, code, address)
  | .inserted :: rest | .ejected :: rest => lastFault rest

def latched : List Entry → UInt8 × UInt8 × UInt8
  | [] | .sensed :: _ => (SenseKey.noSense, Asc.noAdditional)
  | .fault key code _ :: _ => (key, code)
  | .inserted :: _ => (SenseKey.unitAttention, Asc.mediumMayHaveChanged)
  | .ejected :: rest => latched rest

def faultAddress : List Entry → Option ℕ
  | [] | .sensed :: _ => none
  | .fault _ _ (some lba) :: _ => some lba
  | .fault _ _ none :: rest | .inserted :: rest | .ejected :: rest => faultAddress rest

/-- Since sense was last asked for, nothing was inserted after the latest failure, and no address
was out of range before it unless its own was. -/
def Prompt : List Entry → Prop
  | [] | .sensed :: _ | .fault _ _ (some _) :: _ => True
  | .fault _ _ none :: rest => faultAddress rest = none
  | .inserted :: _ => False
  | .ejected :: rest => Prompt rest

theorem Prompt.lastFault_eq {log : List Entry} (h : Prompt log) :
    lastFault log = ((latched log).1, (latched log).2, faultAddress log) := by
  induction log with
  | nil => rfl
  | cons entry rest ih =>
    cases entry with
    | fault key code address =>
      cases address with
      | none => exact congrArg (fun address => (key, code, address)) (Eq.symm h)
      | some lba => rfl
    | sensed => rfl
    | inserted => exact h.elim
    | ejected => exact ih h

def mediumChanged : List Entry → Bool
  | [] => false
  | .inserted :: _ | .ejected :: _ => true
  | .fault _ code _ :: rest => if code = Asc.mediumMayHaveChanged then false else mediumChanged rest
  | .sensed :: rest => mediumChanged rest

structure Tells (d : AtapiDevice) : Prop where
  sense : (d.senseKey, d.asc) = latched d.log
  information : d.senseInformation = faultAddress d.log
  changed : d.mediaChanged = mediumChanged d.log

variable {d : AtapiDevice}

theorem Tells.outcome (h : Tells d) {cdb : Cdb} {result : CmdResult × AtapiDevice}
    (hout : d.Outcome cdb result) : Tells result.2 := by
  cases hout with
  | failed key code _ hattention =>
    refine ⟨rfl, h.information, ?_⟩
    show d.mediaChanged = if code = Asc.mediumMayHaveChanged then false else mediumChanged d.log
    rw [if_neg hattention]
    exact h.changed
  | outOfRange => exact ⟨rfl, rfl, h.changed⟩
  | attention => exact ⟨rfl, h.information, rfl⟩
  | sensed => exact ⟨rfl, rfl, h.changed⟩
  | ejected => exact ⟨h.sense, h.information, rfl⟩
  | done buf d' hkept =>
    refine ⟨?_, ?_, ?_⟩
    · rw [hkept.log, hkept.key, hkept.asc]
      exact h.sense
    · rw [hkept.log, hkept.information]
      exact h.information
    · rw [hkept.log, hkept.changed]
      exact h.changed

theorem Tells.parameters (h : Tells d) (params : List UInt8) :
    Tells (d.next (.parameters params)) := by
  rw [AtapiDevice.next]
  by_cases hlong : 8 ≤ params.length
  · rw [AtapiDevice.modeSelectData_eq d hlong]
    cases (AtapiDevice.listedPages params).2 with
    | false => exact { h with }
    | true => exact ⟨rfl, h.information, h.changed⟩
  · rw [AtapiDevice.modeSelectData, if_pos (Nat.lt_of_not_le hlong)]
    exact ⟨rfl, h.information, h.changed⟩

theorem tells (events : List DriveEvent) : Tells (Runs.exec AtapiDevice.next events .new) := by
  refine List.foldlRecOn (motive := Tells) events _ ⟨rfl, rfl, rfl⟩ fun d h e _ => ?_
  cases e with
  | packet cdb =>
    obtain ⟨reason, hsnd⟩ := d.execute_snd cdb
    have hout := h.outcome (d.interpret_outcome cdb)
    rw [AtapiDevice.next, hsnd]
    exact { hout with }
  | parameters params => exact h.parameters params
  | insert image => exact ⟨rfl, h.information, rfl⟩
  | eject => exact ⟨h.sense, h.information, rfl⟩

/-- A command fails if and only if it logs a failure, with the address it names if that is out of
range. -/
theorem AtapiDevice.Outcome.error_iff {cdb : Cdb} {result : CmdResult × AtapiDevice}
    (h : d.Outcome cdb result) : result.1 = .error ↔ ∃ key code, result.2.log = .fault key code
      (if code = Asc.lbaOutOfRange then some (cdb.be32 2) else none) :: d.log := by
  cases h with
  | failed key code hcode =>
    refine iff_of_true rfl ⟨key, code, ?_⟩
    rw [if_neg hcode]
    rfl
  | outOfRange => exact iff_of_true rfl ⟨_, Asc.lbaOutOfRange, rfl⟩
  | attention => exact iff_of_true rfl ⟨_, Asc.mediumMayHaveChanged, rfl⟩
  | sensed => exact iff_of_false CmdResult.noConfusion fun ⟨_, _, h⟩ => by cases h
  | ejected => exact iff_of_false CmdResult.noConfusion fun ⟨_, _, h⟩ => by cases h
  | done buf d' hkept =>
    refine iff_of_false CmdResult.noConfusion fun ⟨key, code, hlog⟩ => ?_
    exact List.cons_ne_self _ _ (hlog.symm.trans hkept.log)

def senseData (key : UInt8) (code : UInt8 × UInt8) (address : Option ℕ) : List UInt8 :=
  [if address.isSome then 0x70 ||| 0x80 else 0x70, 0, key &&& 0x0F] ++ toBe32 (address.getD 0) ++
    [10, 0, 0, 0, 0, code.1, code.2, 0, 0, 0, 0]

/-- REQUEST SENSE tells the key, the codes and the address of the latest failure since it was last
asked for, if it is asked promptly, and forgets them; TEST UNIT READY fails for a change of medium
exactly when a disc is in and one came or went since it last did. -/
theorem sense_of_log (events : List DriveEvent) (cdb : Cdb) :
    let d := Runs.exec AtapiDevice.next events .new
    let d' := (d.execute cdb).2
    (cdb.opcode = 0x03 →
      (Prompt d.log → (d.execute cdb).1 = .data ((senseData (lastFault d.log).1
        (lastFault d.log).2.1 (lastFault d.log).2.2).take (cdb.byte 4).toNat)) ∧
      d'.senseKey = SenseKey.noSense ∧ d'.asc = Asc.noAdditional ∧ d'.senseInformation = none) ∧
    (cdb.opcode = 0x00 →
      ((d.execute cdb).1 = .error ∧ d'.asc = Asc.mediumMayHaveChanged ↔
        d.image ≠ none ∧ mediumChanged d.log = true)) ∧
    ((d.execute cdb).1 = .error ↔ ∃ key code, d'.log = .fault key code
      (if code = Asc.lbaOutOfRange then some (cdb.be32 2) else none) :: d.log) := by
  intro d d'
  have htells : Tells d := tells events
  obtain ⟨reason, hsnd⟩ := d.execute_snd cdb
  have hd' : d' = { (d.interpret cdb).2 with interruptReason := reason } := hsnd
  rw [AtapiDevice.execute_fst, hd']
  refine ⟨fun hop => ?_, fun hop => ?_, (d.interpret_outcome cdb).error_iff⟩
  · have hinterpret : d.interpret cdb = d.requestSense cdb := by
      unfold AtapiDevice.interpret
      rw [hop]
      rfl
    rw [hinterpret]
    refine ⟨fun hprompt => ?_, rfl, rfl, rfl⟩
    rw [hprompt.lastFault_eq, ← htells.sense, ← htells.information]
    rfl
  · have hinterpret : d.interpret cdb = d.testUnitReady := by
      unfold AtapiDevice.interpret
      rw [hop]
      rfl
    rw [hinterpret, ← htells.changed, AtapiDevice.testUnitReady]
    by_cases hnone : d.image = none
    · rw [if_pos (by rw [hnone]; rfl)]
      have hcode : Asc.notReadyNoMedium ≠ Asc.mediumMayHaveChanged := by decide
      exact iff_of_false (fun h => hcode h.2) fun h => h.1 hnone
    · rw [if_neg (by simpa using hnone)]
      by_cases hchanged : d.mediaChanged = true
      · rw [if_pos hchanged]
        exact iff_of_true ⟨rfl, rfl⟩ ⟨hnone, hchanged⟩
      · rw [if_neg hchanged]
        refine iff_of_false (fun h => ?_) fun h => hchanged h.2
        cases h.1

def packet (head : List UInt8) : Cdb where
  bytes := (head ++ List.replicate 12 0).take 12
  full := by
    rw [List.length_take, List.length_append, List.length_replicate]
    omega

def discIn : List DriveEvent := [.insert ⟨.bytes [], [], 1⟩, .packet (packet [0x00])]

def readPastEnd : DriveEvent := .packet (packet [0x28, 0, 0, 0, 0, 9, 0, 0, 1])

/-- An out-of-range READ, and its sense. -/
theorem sense_of_read_past_end :
    let d := Runs.exec AtapiDevice.next (discIn ++ [readPastEnd]) .new
    (d.execute (packet [0x03, 0, 0, 0, 18])).1 =
      .data [0xF0, 0, 0x05, 0, 0, 0, 9, 10, 0, 0, 0, 0, 0x21, 0, 0, 0, 0, 0] :=
  ((sense_of_log (discIn ++ [readPastEnd]) (packet [0x03, 0, 0, 0, 18])).1 (by decide)).1 trivial

/-- An out-of-range READ and an unknown command, then the sense of the second: it carries the
address of the first. A disc is inserted: REQUEST SENSE reports it, and TEST UNIT READY once more. -/
theorem stale_address :
    let d := Runs.exec AtapiDevice.next (discIn ++ [readPastEnd, .packet (packet [0xFF])]) .new
    let e := AtapiDevice.new.insert ⟨.bytes [], [], 1⟩
    let (sense, e') := e.execute (packet [0x03, 0, 0, 0, 18])
    (lastFault d.log = (SenseKey.illegalRequest, Asc.invalidCommand, none) ∧
      (d.execute (packet [0x03, 0, 0, 0, 18])).1 =
        .data [0xF0, 0, 0x05, 0, 0, 0, 9, 10, 0, 0, 0, 0, 0x20, 0, 0, 0, 0, 0]) ∧
    (sense = .data [0x70, 0, 0x06, 0, 0, 0, 0, 10, 0, 0, 0, 0, 0x28, 0, 0, 0, 0, 0] ∧
      (e'.execute (packet [0x00])).2.log.head? =
        some (.fault SenseKey.unitAttention Asc.mediumMayHaveChanged none)) :=
  ⟨⟨rfl, rfl⟩, rfl, rfl⟩

end IzarraVM.Ide
