import IzarraVM.StateCodec

/-! The writer builds the container of the sections that succeeded. -/
namespace IzarraVM.Canonical

def Writes.run : ℕ → Writes → Result Unit × Bytes
  | _, .done result => (result, [])
  | used, .append value next =>
    match reserve 1 used value.length with
    | .ok _ =>
      let (result, payload) := (next (.ok ())).run (used + value.length)
      (result, value ++ payload)
    | .error e => (next (.error e)).run used

theorem Writes.exec_eq (w : Writes) : ∀ bytes : Bytes,
    w.exec bytes = ((w.run bytes.length).1, bytes ++ (w.run bytes.length).2) := by
  induction w with
  | done result =>
    intro bytes
    rw [Writes.exec, Writes.run, List.append_nil]
  | append value next ih =>
    intro bytes
    rw [Writes.exec, Writes.run]
    cases reserve 1 bytes.length value.length with
    | error e => exact ih (.error e) bytes
    | ok u =>
      dsimp only
      rw [ih (.ok ()) (bytes ++ value), List.length_append, List.append_assoc]

theorem Writes.run_fits (w : Writes) : ∀ {used : ℕ}, used ≤ isizeMax →
    used + (w.run used).2.length ≤ isizeMax := by
  induction w with
  | done result => exact fun h => h
  | append value next ih =>
    intro used hused
    rw [Writes.run]
    cases hreserve : reserve 1 used value.length with
    | error e => exact ih (.error e) hused
    | ok u =>
      have hroom := reserve_ok_iff.mp hreserve
      have hrest := ih (.ok ()) hroom
      dsimp only
      rw [List.length_append]
      omega

def Request.outcome (r : Request) (used : ℕ) : Result Section :=
  match reserve 1 used sectionHeaderLen with
  | .error e => .error e
  | .ok _ =>
    match r.write.run (used + sectionHeaderLen) with
    | (.error e, _) => .error e
    | (.ok _, payload) => .ok ⟨r.id, r.version, r.requirement, payload⟩

theorem Request.outcome_id {r : Request} {used : ℕ} {s : Section} (h : r.outcome used = .ok s) :
    s.id = r.id := by
  unfold Request.outcome at h
  split at h
  · cases h
  · split at h
    · cases h
    · cases h
      rfl

theorem Request.outcome_fits {r : Request} {used : ℕ} {s : Section} (h : r.outcome used = .ok s) :
    used + s.encode.length ≤ isizeMax := by
  unfold Request.outcome at h
  cases hreserve : reserve 1 used sectionHeaderLen with
  | error e =>
    rw [hreserve] at h
    cases h
  | ok u =>
    have hroom := reserve_ok_iff.mp hreserve
    have hfits := r.write.run_fits hroom
    rw [hreserve] at h
    dsimp only at h
    rw [Section.length_encode]
    generalize r.write.run (used + sectionHeaderLen) = written at h hfits
    obtain ⟨result, payload⟩ := written
    cases result with
    | error e => cases h
    | ok u =>
      cases h
      dsimp only at hfits ⊢
      unfold sectionHeaderLen at hfits
      omega

theorem copyAt_middle {a b c value : Bytes} {offset : ℕ} (ha : a.length = offset)
    (hb : b.length = value.length) : copyAt (a ++ (b ++ c)) offset value = a ++ (value ++ c) := by
  unfold copyAt
  rw [List.take_left' ha, ← List.drop_drop, List.drop_left' ha, List.drop_left' hb,
    List.append_assoc]

/-- A section's body is its encoding after the container's bytes, or it fails with those bytes still
in front. -/
theorem sectionBody_spec (r : Request) (bytes : Bytes) :
    (∀ s, r.outcome bytes.length = .ok s → sectionBody r bytes = (.ok (), bytes ++ s.encode)) ∧
      ∀ e, r.outcome bytes.length = .error e →
        ∃ more, sectionBody r bytes = (.error e, bytes ++ more) := by
  unfold sectionBody Request.outcome
  cases hreserve : reserve 1 bytes.length sectionHeaderLen with
  | error e =>
    refine ⟨nofun, fun e' h => ⟨[], ?_⟩⟩
    cases h
    rw [List.append_nil]
  | ok u =>
    have hroom := reserve_ok_iff.mp hreserve
    have hfits := r.write.run_fits hroom
    have hstart : (bytes ++ leBytes 4 r.id.get ++ leBytes 2 r.version.get ++
        leBytes 2 r.requirement.flags ++ leBytes 8 0).length = bytes.length + sectionHeaderLen := by
      simp only [List.length_append, leBytes_length]
      rfl
    have hoffset : (bytes ++ leBytes 4 r.id.get ++ leBytes 2 r.version.get ++
        leBytes 2 r.requirement.flags).length = bytes.length + 8 := by
      simp only [List.length_append, leBytes_length]
    dsimp only
    rw [Writes.exec_eq, hstart, hoffset]
    generalize r.write.run (bytes.length + sectionHeaderLen) = written at hfits ⊢
    obtain ⟨result, payload⟩ := written
    cases result with
    | error e =>
      refine ⟨nofun, fun e' h => ?_⟩
      cases h
      refine ⟨leBytes 4 r.id.get ++ (leBytes 2 r.version.get ++ (leBytes 2 r.requirement.flags ++
        (leBytes 8 0 ++ payload))), ?_⟩
      show (Except.error e, _) = (Except.error e, _)
      simp only [List.append_assoc]
    | ok u =>
      refine ⟨fun s h => ?_, nofun⟩
      cases h
      dsimp only at hfits ⊢
      have hsub : checkedSub (bytes ++ leBytes 4 r.id.get ++ leBytes 2 r.version.get ++
          leBytes 2 r.requirement.flags ++ leBytes 8 0 ++ payload).length
          (bytes.length + sectionHeaderLen) = .ok payload.length := by
        rw [List.length_append, hstart]
        unfold checkedSub
        rw [if_pos (Nat.le_add_right _ _), Nat.add_sub_cancel_left]
      have hadd : checkedAdd (bytes.length + 8) 8 = .ok (bytes.length + 8 + 8) :=
        checkedAdd_of_le (Nat.le_refl _) hroom
      simp only [ok_bind, hsub, hadd]
      -- the length goes over the eight zeros
      have hcopy := @copyAt_middle _ (leBytes 8 0) payload (leBytes 8 payload.length) _ hoffset
        (by rw [leBytes_length, leBytes_length])
      rw [← List.append_assoc] at hcopy
      show (Except.ok (), copyAt _ _ _) = _
      rw [hcopy]
      unfold Section.encode
      simp only [List.append_assoc]

def lastOf : Option ℕ → List Section → Option ℕ
  | lastSection, [] => lastSection
  | _, s :: rest => lastOf (some s.id.get) rest

theorem ascending_append (a b : List Section) : ∀ lastSection : Option ℕ,
    Ascending lastSection (a ++ b) ↔ Ascending lastSection a ∧ Ascending (lastOf lastSection a) b := by
  induction a with
  | nil => exact fun _ => (and_iff_right trivial).symm
  | cons s rest ih =>
    intro lastSection
    exact (and_congr_right fun _ => ih _).trans and_assoc.symm

theorem lastOf_append (a b : List Section) : ∀ lastSection : Option ℕ,
    lastOf lastSection (a ++ b) = lastOf (lastOf lastSection a) b := by
  induction a with
  | nil => exact fun _ => rfl
  | cons s rest ih => exact fun _ => ih _

variable (sections : List Section)

theorem lastOf_lt : ∀ {lastSection : Option ℕ},
    lastSection.getD 0 < 2 ^ 32 → (lastOf lastSection sections).getD 0 < 2 ^ 32 := by
  induction sections with
  | nil => exact fun h => h
  | cons s rest ih => exact fun _ => ih s.id.lt

/-- There are no more ascending identifiers than the last one is large. -/
theorem Ascending.length_le : ∀ {lastSection : Option ℕ},
    Ascending lastSection sections →
    lastSection.getD 0 + sections.length ≤ (lastOf lastSection sections).getD 0 := by
  induction sections with
  | nil => exact fun _ => Nat.le_refl _
  | cons s rest ih =>
    rintro lastSection ⟨hafter, hrest⟩
    have hle := ih hrest
    have hpos := s.id.pos
    have hfirst : lastSection.getD 0 < s.id.get := by
      cases lastSection with
      | none => exact hpos
      | some previous => exact hafter previous rfl
    rw [Option.getD_some] at hle
    rw [List.length_cons, lastOf]
    omega

structure Holds (w : Writer) (sections : List Section) : Prop where
  bytes : w.bytes = header 0 0 ++ body sections
  count : w.sectionCount = sections.length
  last : w.lastSection = lastOf none sections
  ascending : Ascending none sections
  fits : w.bytes.length ≤ isizeMax

theorem new_holds : ∃ w, Writer.new = .ok w ∧ Holds w [] := by
  refine ⟨_, rfl, ?_, rfl, rfl, trivial, ?_⟩
  · show _ = header 0 0 ++ []
    unfold header
    simp only [List.append_assoc, List.append_nil]
    rfl
  · simp only [List.length_append, leBytes_length]
    decide

theorem Holds.section_spec {w : Writer} {sections : List Section} (h : Holds w sections)
    {r : Request} (hafter : After (lastOf none sections) r.id.get) :
    (∀ s, r.outcome w.bytes.length = .ok s → ∃ w', w.section r = (.ok (), w') ∧
      Holds w' (sections ++ [s]) ∧ w'.bytes.length = w.bytes.length + s.encode.length) ∧
    ∀ e, r.outcome w.bytes.length = .error e → w.section r = (.error e, w) := by
  have hcount : w.sectionCount + 1 < 2 ^ 32 := by
    have hone := Ascending.length_le sections h.ascending
    have hlt := r.id.lt
    have hbelow : (lastOf none sections).getD 0 < r.id.get := by
      cases hlast : lastOf none sections with
      | none => exact r.id.pos
      | some previous => exact hafter previous hlast
    rw [h.count]
    rw [Option.getD_none] at hone
    omega
  have horder : (w.lastSection.filter fun previous => r.id.get ≤ previous) = none := by
    rw [h.last]
    exact filter_eq_none_iff.mpr hafter
  obtain ⟨hok, herror⟩ := sectionBody_spec r w.bytes
  unfold Writer.section
  dsimp only
  rw [horder]
  dsimp only
  rw [if_pos hcount]
  constructor
  · intro s hs
    have hid : s.id = r.id := Request.outcome_id hs
    have hfits := Request.outcome_fits hs
    rw [hok s hs]
    refine ⟨_, rfl, ⟨?_, ?_, ?_, ?_, ?_⟩, List.length_append⟩
    · show w.bytes ++ s.encode = header 0 0 ++ body (sections ++ [s])
      rw [h.bytes, body_append, body_cons, List.append_assoc]
      exact congrArg _ (congrArg _ (List.append_nil _).symm)
    · show w.sectionCount + 1 = (sections ++ [s]).length
      rw [h.count, List.length_append]
      rfl
    · show some r.id.get = lastOf none (sections ++ [s])
      rw [lastOf_append, ← hid]
      rfl
    · refine (ascending_append sections [s] none).mpr ⟨h.ascending, ?_, trivial⟩
      rw [hid]
      exact hafter
    · show (w.bytes ++ s.encode).length ≤ isizeMax
      rw [List.length_append]
      exact hfits
  · intro e he
    obtain ⟨more, hmore⟩ := herror e he
    rw [hmore]
    show (Except.error e, { w with bytes := (w.bytes ++ more).take w.bytes.length }) = _
    rw [List.take_left]

def outcomes : ℕ → List Request → List (Result Section)
  | _, [] => []
  | used, r :: rest =>
    match r.outcome used with
    | .ok s => .ok s :: outcomes (used + s.encode.length) rest
    | .error e => .error e :: outcomes used rest

def written (outcomes : List (Result Section)) : List Section := outcomes.filterMap Except.toOption

theorem Holds.sections_spec (reqs : List Request) : ∀ {w : Writer} {sections : List Section},
    Holds w sections → (reqs.map fun r => r.id.get).Pairwise (· < ·) →
    (∀ r ∈ reqs, After (lastOf none sections) r.id.get) →
    (w.sections reqs).1 = (outcomes w.bytes.length reqs).map (·.map fun _ => ()) ∧
      Holds (w.sections reqs).2 (sections ++ written (outcomes w.bytes.length reqs)) := by
  induction reqs with
  | nil =>
    intro w sections h _ _
    refine ⟨rfl, ?_⟩
    show Holds w (sections ++ [])
    rw [List.append_nil]
    exact h
  | cons r rest ih =>
    intro w sections h hascending hafter
    rw [List.map_cons, List.pairwise_cons] at hascending
    obtain ⟨hfirst, hrest⟩ := hascending
    obtain ⟨hok, herror⟩ := h.section_spec (hafter r List.mem_cons_self)
    rw [Writer.sections, outcomes]
    cases houtcome : r.outcome w.bytes.length with
    | error e =>
      rw [herror e houtcome]
      obtain ⟨hresults, hholds⟩ :=
        ih h hrest fun q hq => hafter q (List.mem_cons_of_mem _ hq)
      exact ⟨congrArg _ hresults, hholds⟩
    | ok s =>
      obtain ⟨w', hsection, hw', hlength⟩ := hok s houtcome
      have hid : s.id = r.id := Request.outcome_id houtcome
      have hlater : ∀ q ∈ rest, After (lastOf none (sections ++ [s])) q.id.get := by
        intro q hq previous hprevious
        rw [lastOf_append] at hprevious
        cases hprevious
        rw [hid]
        exact hfirst q.id.get (List.mem_map.mpr ⟨q, hq, rfl⟩)
      obtain ⟨hresults, hholds⟩ := ih hw' hrest hlater
      rw [hlength] at hresults hholds
      rw [hsection]
      refine ⟨congrArg _ hresults, ?_⟩
      show Holds (w'.sections rest).2 (sections ++ s :: written _)
      rw [List.append_assoc] at hholds
      exact hholds

theorem Holds.finish_spec {w : Writer} {sections : List Section} (h : Holds w sections) :
    w.finish = .ok (header 0 sections.length ++ body sections) ∧
      parse (header 0 sections.length ++ body sections) = .ok ⟨0, sections⟩ := by
  have hcount : sections.length < 2 ^ 32 := by
    have hle := Ascending.length_le sections h.ascending
    rw [Option.getD_none] at hle
    have hlast : (lastOf none sections).getD 0 < 2 ^ 32 := lastOf_lt sections (Nat.two_pow_pos 32)
    omega
  have hlength : (header 0 sections.length ++ body sections).length ≤ isizeMax := by
    have hfits := h.fits
    rw [h.bytes, List.length_append, length_header] at hfits
    rw [List.length_append, length_header]
    exact hfits
  have hparse : parse (header 0 sections.length ++ body sections) = .ok ⟨0, sections⟩ :=
    (parse_ok_iff hlength).mpr ⟨Nat.two_pow_pos 16, hcount, h.ascending, rfl⟩
  have hcopy : copyAt w.bytes sectionCountOffset (leBytes 4 w.sectionCount) =
      header 0 sections.length ++ body sections := by
    have hmiddle := @copyAt_middle
      (containerMagic ++ (leBytes 2 containerMajor ++ (leBytes 2 0 ++ leBytes 4 0))) (leBytes 4 0)
      (body sections) (leBytes 4 sections.length) 16
      (by simp only [List.length_append, leBytes_length]; rfl)
      (by rw [leBytes_length, leBytes_length])
    simp only [List.append_assoc] at hmiddle
    rw [h.bytes, h.count]
    unfold header sectionCountOffset
    simp only [List.append_assoc]
    exact hmiddle
  refine ⟨?_, hparse⟩
  unfold Writer.finish
  rw [hcopy]
  dsimp only
  rw [hparse]
  rfl

def Section.request (s : Section) : Request := ⟨s.id, s.version, s.requirement, writeRawBytes s.payload⟩

theorem outcome_request {s : Section} {used : ℕ} (h : used + s.encode.length ≤ isizeMax) :
    s.request.outcome used = .ok s := by
  rw [Section.length_encode] at h
  have hheader : reserve 1 used sectionHeaderLen = .ok () :=
    reserve_ok_iff.mpr (by unfold sectionHeaderLen; omega)
  have hpayload : reserve 1 (used + sectionHeaderLen) s.payload.length = .ok () :=
    reserve_ok_iff.mpr (by unfold sectionHeaderLen; omega)
  have hrun : s.request.write.run (used + sectionHeaderLen) = (.ok (), s.payload) := by
    show Writes.run (used + sectionHeaderLen) (.append s.payload .done) = _
    rw [Writes.run, hpayload]
    show (Except.ok (), s.payload ++ []) = _
    rw [List.append_nil]
  unfold Request.outcome
  rw [hheader]
  dsimp only
  rw [hrun]
  rfl

theorem outcomes_request : ∀ {used : ℕ},
    used + (body sections).length ≤ isizeMax →
    outcomes used (sections.map Section.request) = sections.map .ok := by
  induction sections with
  | nil => exact fun _ => rfl
  | cons s rest ih =>
    intro used h
    rw [body_cons, List.length_append] at h
    rw [List.map_cons, outcomes, outcome_request (by omega)]
    dsimp only
    rw [ih (by omega), List.map_cons]

theorem written_ok : written (sections.map .ok) = sections := by
  unfold written
  rw [List.filterMap_map]
  exact List.filterMap_some

theorem Ascending.pairwise : ∀ {lastSection : Option ℕ},
    Ascending lastSection sections →
    (∀ s ∈ sections, After lastSection s.id.get) ∧
      (sections.map fun s => s.id.get).Pairwise (· < ·) := by
  induction sections with
  | nil => exact fun _ => ⟨fun _ h => absurd h List.not_mem_nil, List.Pairwise.nil⟩
  | cons s rest ih =>
    rintro lastSection ⟨hafter, hrest⟩
    obtain ⟨hall, hpairs⟩ := ih hrest
    constructor
    · intro q hq
      rcases List.mem_cons.mp hq with rfl | hq
      · exact hafter
      · exact fun previous hprevious =>
          Nat.lt_trans (hafter previous hprevious) (hall q hq s.id.get rfl)
    · rw [List.map_cons, List.pairwise_cons]
      refine ⟨?_, hpairs⟩
      intro id hid
      obtain ⟨q, hq, rfl⟩ := List.mem_map.mp hid
      exact hall q hq s.id.get rfl

structure Slice where
  bytes : Bytes
  fits : bytes.length ≤ isizeMax

/-- Sections asked for under ascending identifiers read back as the ones that succeeded, and a
container with minor version zero is what the writer makes of its sections. -/
theorem container_codec :
    (∀ reqs : List Request, (reqs.map fun r => r.id.get).Pairwise (· < ·) →
      ∃ w bytes, Writer.new = .ok w ∧
        (w.sections reqs).1 = (outcomes headerLen reqs).map (·.map fun _ => ()) ∧
        (w.sections reqs).2.finish = .ok bytes ∧
        parse bytes = .ok ⟨0, written (outcomes headerLen reqs)⟩) ∧
    ∀ (slice : Slice) (sections : List Section), parse slice.bytes = .ok ⟨0, sections⟩ →
      ∃ w, Writer.new = .ok w ∧
        (w.sections (sections.map Section.request)).2.finish = .ok slice.bytes := by
  obtain ⟨w, hnew, hw⟩ := new_holds
  have hempty : w.bytes.length = headerLen := by
    rw [hw.bytes, List.length_append, length_header]
    rfl
  have hfirst : ∀ reqs : List Request, ∀ r ∈ reqs, After (lastOf none []) r.id.get :=
    fun _ _ _ _ h => by cases h
  constructor
  · intro reqs hascending
    obtain ⟨hresults, hholds⟩ := hw.sections_spec reqs hascending (hfirst reqs)
    rw [hempty] at hresults hholds
    obtain ⟨hfinish, hparse⟩ := hholds.finish_spec
    exact ⟨w, _, hnew, hresults, hfinish, hparse⟩
  · intro slice sections h
    obtain ⟨-, -, hascending, hbytes⟩ := (parse_ok_iff slice.fits).mp h
    dsimp only at hascending hbytes
    have hfits : headerLen + (body sections).length ≤ isizeMax := by
      have hslice := slice.fits
      rw [hbytes, List.length_append, length_header] at hslice
      exact hslice
    have hids : ((sections.map Section.request).map fun r => r.id.get).Pairwise (· < ·) := by
      rw [List.map_map]
      exact (Ascending.pairwise sections hascending).2
    obtain ⟨-, hholds⟩ := hw.sections_spec _ hids (hfirst _)
    rw [hempty, outcomes_request sections hfits, written_ok] at hholds
    refine ⟨w, hnew, ?_⟩
    rw [hbytes]
    exact hholds.finish_spec.1

def failingMiddle : List Request :=
  [⟨⟨1, by decide, by decide⟩, ⟨1, by decide, by decide⟩, .required, writeRawBytes [7]⟩,
    ⟨⟨2, by decide, by decide⟩, ⟨1, by decide, by decide⟩, .required,
      .append [8] fun _ => .done (.error .lengthOverflow)⟩,
    ⟨⟨7, by decide, by decide⟩, ⟨2, by decide, by decide⟩, .optional, writeRawBytes []⟩]

theorem failing_middle_codec : (failingMiddle.map fun r => r.id.get).Pairwise (· < ·) ∧
    ∃ w bytes, Writer.new = .ok w ∧ (w.sections failingMiddle).2.finish = .ok bytes ∧
      parse bytes = .ok ⟨0, written (outcomes headerLen failingMiddle)⟩ := by
  have hascending : (failingMiddle.map fun r => r.id.get).Pairwise (· < ·) := by decide
  obtain ⟨w, bytes, hnew, -, hfinish, hparse⟩ := container_codec.1 failingMiddle hascending
  exact ⟨hascending, w, bytes, hnew, hfinish, hparse⟩

end IzarraVM.Canonical
