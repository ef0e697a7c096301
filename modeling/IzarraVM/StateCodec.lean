import IzarraVM.StateContainer

/-! The container is a codec: the writer's output reads back, and only that is accepted. -/
namespace IzarraVM.Canonical

theorem ok_bind {α β : Type} (a : α) (f : α → Result β) : (Except.ok a : Result α) >>= f = f a := rfl

theorem bind_eq_ok {α β : Type} {x : Result α} {f : α → Result β} {b : β} :
    x >>= f = .ok b ↔ ∃ a, x = .ok a ∧ f a = .ok b := by
  cases x with
  | error e => exact iff_of_false nofun nofun
  | ok a =>
    constructor
    · exact fun h => ⟨a, rfl, h⟩
    · rintro ⟨a', ha, h⟩
      cases ha
      exact h

theorem require_eq_ok {p : Prop} [Decidable p] {e : CanonicalStateError} {u : Unit} :
    require p e = .ok u ↔ p := by
  unfold require
  split_ifs with hp
  · exact iff_of_true rfl hp
  · exact iff_of_false nofun hp

theorem okOr_eq_ok {α : Type} {value : Option α} {e : CanonicalStateError} {a : α} :
    okOr value e = .ok a ↔ value = some a := by
  unfold okOr
  cases value with
  | none => exact iff_of_false nofun nofun
  | some b => exact ⟨fun h => congrArg some (Except.ok.inj h), fun h => by cases h; rfl⟩

theorem checkedAdd_of_le {a b n : ℕ} (hn : n ≤ isizeMax) (h : a + b ≤ n) :
    checkedAdd a b = .ok (a + b) := by
  unfold isizeMax at hn
  exact if_pos (by omega)

theorem reserve_ok_iff {len additional : ℕ} {u : Unit} :
    reserve 1 len additional = .ok u ↔ len + additional ≤ isizeMax := by
  unfold reserve
  have hmax : isizeMax < 2 ^ 64 := by decide
  split_ifs with hover hlarge
  · exact iff_of_false nofun (by omega)
  · exact iff_of_false nofun (by omega)
  · exact iff_of_true rfl (by omega)

theorem checkedAdd_eq {a b n : ℕ} (h : checkedAdd a b = .ok n) : n = a + b := by
  unfold checkedAdd at h
  split_ifs at h
  cases h
  rfl

/-- The bytes from `start` to `stop` are `part`. -/
structure Spells (bytes : Bytes) (start : ℕ) (part : Bytes) (stop : ℕ) : Prop where
  drop : bytes.drop start = part ++ bytes.drop stop
  ends : stop = start + part.length
  le : stop ≤ bytes.length

section Spells

variable {bytes a b : Bytes} {start stop m n : ℕ}

theorem spells_nil (h : start ≤ bytes.length) : Spells bytes start [] stop ↔ stop = start :=
  ⟨fun hs => hs.ends, fun hs => ⟨by rw [hs]; rfl, hs, hs ▸ h⟩⟩

theorem spells_append (ha : a.length = m) :
    Spells bytes start (a ++ b) stop ↔
      Spells bytes start a (start + m) ∧ Spells bytes (start + m) b stop := by
  constructor
  · rintro ⟨hdrop, hstop, hle⟩
    rw [List.append_assoc] at hdrop
    rw [List.length_append] at hstop
    have hnext : bytes.drop (start + m) = b ++ bytes.drop stop := by
      rw [← List.drop_drop, hdrop, List.drop_left' ha]
    exact ⟨⟨by rw [hnext, hdrop], by rw [ha], by omega⟩, hnext, by omega, hle⟩
  · rintro ⟨hfirst, hrest⟩
    have hstop := hrest.ends
    refine ⟨?_, by rw [List.length_append]; omega, hrest.le⟩
    rw [hfirst.drop, hrest.drop, List.append_assoc]

theorem spells_take (h : start + n ≤ bytes.length) :
    Spells bytes start ((bytes.drop start).take n) (start + n) := by
  refine ⟨?_, ?_, h⟩
  · rw [← List.drop_drop, List.take_append_drop]
  · rw [List.length_take, List.length_drop]
    omega

/-- A number is read exactly where its bytes stand. -/
theorem readLe_eq_ok (hlen : bytes.length ≤ isizeMax) {width : ℕ} :
    readLe width bytes start = .ok n ↔
      n < 256 ^ width ∧ Spells bytes start (leBytes width n) (start + width) := by
  unfold readLe
  by_cases hroom : start + width ≤ bytes.length
  · have hlength : ((bytes.drop start).take width).length = width := by
      rw [List.length_take, List.length_drop]
      omega
    rw [checkedAdd_of_le hlen hroom, ok_bind, if_pos hroom]
    constructor
    · intro h
      cases h
      have hbytes := leBytes_leNat ((bytes.drop start).take width)
      have hlt := leNat_lt ((bytes.drop start).take width)
      rw [hlength] at hbytes hlt
      exact ⟨hlt, hbytes.symm ▸ spells_take hroom⟩
    · rintro ⟨hlt, hspells⟩
      rw [hspells.drop, List.take_left' (leBytes_length _ _), leNat_leBytes, Nat.mod_eq_of_lt hlt]
  · refine iff_of_false (fun h => ?_) fun h => hroom h.2.le
    obtain ⟨last, hlast, h⟩ := bind_eq_ok.mp h
    rw [checkedAdd_eq hlast, if_neg hroom] at h
    cases h

end Spells

variable {bytes : Bytes}

def Section.encode (s : Section) : Bytes :=
  leBytes 4 s.id.get ++ (leBytes 2 s.version.get ++ (leBytes 2 s.requirement.flags ++
    (leBytes 8 s.payload.length ++ s.payload)))

theorem Section.length_encode (s : Section) : s.encode.length = 16 + s.payload.length := by
  unfold Section.encode
  simp only [List.length_append, leBytes_length]
  omega

theorem SectionId.new_eq_some {value : ℕ} {id : SectionId} :
    SectionId.new value = some id ↔ value = id.get := by
  unfold SectionId.new
  constructor
  · intro h
    split_ifs at h
    cases h
    rfl
  · rintro rfl
    rw [dif_pos ⟨id.pos, id.lt⟩]

theorem SectionVersion.new_eq_some {value : ℕ} {version : SectionVersion} :
    SectionVersion.new value = some version ↔ value = version.get := by
  unfold SectionVersion.new
  constructor
  · intro h
    split_ifs at h
    cases h
    rfl
  · rintro rfl
    rw [dif_pos ⟨version.pos, version.lt⟩]

theorem Requirement.fromFlags_eq_some {flags : ℕ} {r : Requirement} :
    Requirement.fromFlags flags = some r ↔ flags = r.flags := by
  unfold Requirement.fromFlags
  constructor
  · intro h
    split_ifs at h with hzero hone
    · cases h
      exact hzero
    · cases h
      exact hone
  · rintro rfl
    cases r <;> rfl

def After (lastSection : Option ℕ) (id : ℕ) : Prop := ∀ previous ∈ lastSection, previous < id

theorem filter_eq_none_iff {lastSection : Option ℕ} {id : ℕ} :
    (lastSection.filter fun previous => id ≤ previous) = none ↔ After lastSection id := by
  unfold After
  rw [Option.filter_eq_none_iff]
  simp only [decide_eq_true_eq, Nat.not_le]
  exact Iff.rfl

theorem Requirement.flags_lt (r : Requirement) : r.flags < 256 ^ 2 := by
  cases r <;> decide

theorem Section.spells_encode {cursor next : ℕ} (s : Section) :
    Spells bytes cursor s.encode next ↔
      Spells bytes cursor (leBytes 4 s.id.get) (cursor + 4) ∧
      Spells bytes (cursor + 4) (leBytes 2 s.version.get) (cursor + 6) ∧
      Spells bytes (cursor + 6) (leBytes 2 s.requirement.flags) (cursor + 8) ∧
      Spells bytes (cursor + 8) (leBytes 8 s.payload.length) (cursor + 16) ∧
      Spells bytes (cursor + 16) s.payload next := by
  unfold Section.encode
  rw [spells_append (leBytes_length 4 _), spells_append (leBytes_length 2 _),
    spells_append (leBytes_length 2 _), spells_append (leBytes_length 8 _)]

/-- The reader takes a section at the cursor exactly when the section's bytes are there. -/
theorem parseSection_ok_iff (hlen : bytes.length ≤ isizeMax) {index cursor next : ℕ}
    {lastSection : Option ℕ} {s : Section} :
    parseSection bytes index cursor lastSection = .ok (s, next) ↔
      Spells bytes cursor s.encode next ∧ After lastSection s.id.get := by
  rw [s.spells_encode]
  constructor
  · intro h
    unfold parseSection at h
    obtain ⟨headerEnd, hheader, h⟩ := bind_eq_ok.mp h
    obtain ⟨_, -, h⟩ := bind_eq_ok.mp h
    obtain ⟨rawId, hrawId, h⟩ := bind_eq_ok.mp h
    obtain ⟨id, hid, h⟩ := bind_eq_ok.mp h
    split at h
    · cases h
    next hlast =>
    obtain ⟨rawVersion, hrawVersion, h⟩ := bind_eq_ok.mp h
    obtain ⟨version, hversion, h⟩ := bind_eq_ok.mp h
    obtain ⟨rawFlags, hrawFlags, h⟩ := bind_eq_ok.mp h
    obtain ⟨requirement, hrequirement, h⟩ := bind_eq_ok.mp h
    obtain ⟨declared, hdeclared, h⟩ := bind_eq_ok.mp h
    obtain ⟨payloadEnd, hend, h⟩ := bind_eq_ok.mp h
    obtain ⟨_, hfits, h⟩ := bind_eq_ok.mp h
    cases h
    obtain rfl := checkedAdd_eq hheader
    obtain rfl := checkedAdd_eq hend
    obtain rfl := SectionId.new_eq_some.mp (okOr_eq_ok.mp hid)
    obtain rfl := SectionVersion.new_eq_some.mp (okOr_eq_ok.mp hversion)
    obtain rfl := Requirement.fromFlags_eq_some.mp (okOr_eq_ok.mp hrequirement)
    have hpayload := spells_take (require_eq_ok.mp hfits)
    refine ⟨⟨((readLe_eq_ok hlen).mp hrawId).2, ((readLe_eq_ok hlen).mp hrawVersion).2,
      ((readLe_eq_ok hlen).mp hrawFlags).2, ?_, hpayload⟩, filter_eq_none_iff.mp hlast⟩
    rw [← Nat.add_left_cancel hpayload.ends]
    exact ((readLe_eq_ok hlen).mp hdeclared).2
  · rintro ⟨⟨hid, hversion, hflags, hlength, hpayload⟩, hafter⟩
    have hle := hpayload.le
    have hstop := hpayload.ends
    have hdeclared : s.payload.length < 256 ^ 8 := by
      unfold isizeMax at hlen
      omega
    have hend : checkedAdd (cursor + 16) s.payload.length = .ok next := by
      rw [hstop]
      exact checkedAdd_of_le hlen (hstop ▸ hle)
    have hheader : checkedAdd cursor sectionHeaderLen = .ok (cursor + 16) :=
      checkedAdd_of_le hlen hlength.le
    have hrawId : readU32 bytes cursor = .ok s.id.get := (readLe_eq_ok hlen).mpr ⟨s.id.lt, hid⟩
    have hrawVersion : readU16 bytes (cursor + 4) = .ok s.version.get :=
      (readLe_eq_ok hlen).mpr ⟨s.version.lt, hversion⟩
    have hrawFlags : readU16 bytes (cursor + 6) = .ok s.requirement.flags :=
      (readLe_eq_ok hlen).mpr ⟨s.requirement.flags_lt, hflags⟩
    have hrawLength : readU64 bytes (cursor + 8) = .ok s.payload.length :=
      (readLe_eq_ok hlen).mpr ⟨hdeclared, hlength⟩
    simp only [parseSection, hheader, hrawId, hrawVersion, hrawFlags, hrawLength, hend, ok_bind,
      SectionId.new_eq_some.mpr rfl, SectionVersion.new_eq_some.mpr rfl,
      Requirement.fromFlags_eq_some.mpr rfl, okOr, filter_eq_none_iff.mpr hafter, require,
      if_pos hlength.le, if_pos hle, hpayload.drop, List.take_left]
    rfl

abbrev body (sections : List Section) : Bytes := sections.flatMap Section.encode

theorem body_cons (s : Section) (rest : List Section) : body (s :: rest) = s.encode ++ body rest :=
  rfl

theorem body_append (a b : List Section) : body (a ++ b) = body a ++ body b := List.flatMap_append

def Ascending : Option ℕ → List Section → Prop
  | _, [] => True
  | lastSection, s :: rest => After lastSection s.id.get ∧ Ascending (some s.id.get) rest

theorem reserve_sections {index : ℕ} (h : index < 2 ^ 32) : reserve sectionSize index 1 = .ok () := by
  unfold reserve sectionSize isizeMax
  rw [if_neg (by omega), if_neg (by omega)]

/-- The loop takes some sections exactly when their bytes are at the cursor, in order. -/
theorem parseSections_ok_iff (hlen : bytes.length ≤ isizeMax) (left : ℕ) :
    ∀ {index cursor last : ℕ} {lastSection : Option ℕ} {sections : List Section},
    index + left ≤ 2 ^ 32 → cursor ≤ bytes.length →
    (parseSections bytes left index cursor lastSection = .ok (sections, last) ↔
      sections.length = left ∧ Spells bytes cursor (body sections) last ∧
        Ascending lastSection sections) := by
  induction left with
  | zero =>
    intro index cursor last lastSection sections _ hcursor
    rw [parseSections]
    constructor
    · intro h
      cases h
      exact ⟨rfl, (spells_nil hcursor).mpr rfl, trivial⟩
    · rintro ⟨hnil, hspells, -⟩
      obtain rfl := List.length_eq_zero_iff.mp hnil
      rw [(spells_nil hcursor).mp hspells]
  | succ left ih =>
    intro index cursor last lastSection sections hindex hcursor
    rw [parseSections]
    constructor
    · intro h
      obtain ⟨⟨here, next⟩, hhere, h⟩ := bind_eq_ok.mp h
      obtain ⟨hspells, hafter⟩ := (parseSection_ok_iff hlen).mp hhere
      obtain ⟨_, -, h⟩ := bind_eq_ok.mp h
      obtain ⟨⟨rest, last'⟩, hrest, h⟩ := bind_eq_ok.mp h
      cases h
      obtain ⟨hlength, hspells', hascending⟩ := (ih (by omega) hspells.le).mp hrest
      obtain rfl := hspells.ends
      exact ⟨congrArg Nat.succ hlength, (spells_append rfl).mpr ⟨hspells, hspells'⟩, hafter,
        hascending⟩
    · rintro ⟨hlength, hspells, hascending⟩
      cases sections with
      | nil => cases hlength
      | cons here rest =>
        obtain ⟨hafter, hascending⟩ := hascending
        obtain ⟨hhere, hrest⟩ := (spells_append rfl).mp (body_cons here rest ▸ hspells)
        rw [(parseSection_ok_iff hlen).mpr ⟨hhere, hafter⟩, ok_bind]
        dsimp only
        rw [reserve_sections (by omega), ok_bind,
          (ih (by omega) hhere.le).mpr ⟨Nat.succ.inj hlength, hrest, hascending⟩]
        rfl

def header (minor count : ℕ) : Bytes :=
  containerMagic ++ (leBytes 2 containerMajor ++ (leBytes 2 minor ++ (leBytes 4 0 ++
    leBytes 4 count)))

theorem length_header (minor count : ℕ) : (header minor count).length = 20 := by
  unfold header
  simp only [List.length_append, leBytes_length]
  rfl

theorem spells_header {minor count : ℕ} : Spells bytes 0 (header minor count) 20 ↔
    Spells bytes 0 containerMagic 8 ∧ Spells bytes 8 (leBytes 2 containerMajor) 10 ∧
      Spells bytes 10 (leBytes 2 minor) 12 ∧ Spells bytes 12 (leBytes 4 0) 16 ∧
      Spells bytes 16 (leBytes 4 count) 20 := by
  unfold header
  rw [spells_append (m := 8) rfl, spells_append (leBytes_length 2 _),
    spells_append (leBytes_length 2 _), spells_append (leBytes_length 4 _)]

theorem spells_magic (h : 8 ≤ bytes.length) :
    Spells bytes 0 containerMagic 8 ↔ bytes.take 8 = containerMagic := by
  constructor
  · intro hspells
    rw [show bytes = _ from hspells.drop]
    exact List.take_left' rfl
  · intro htake
    have hspells : Spells bytes 0 ((bytes.drop 0).take 8) (0 + 8) := spells_take (by omega)
    rwa [List.drop_zero, htake] at hspells

/-- The reader accepts exactly the containers of sections whose identifiers ascend, each in its one
encoding. -/
theorem parse_ok_iff (hlen : bytes.length ≤ isizeMax) {view : View} :
    parse bytes = .ok view ↔ view.minorVersion < 2 ^ 16 ∧ view.sections.length < 2 ^ 32 ∧
      Ascending none view.sections ∧
      bytes = header view.minorVersion view.sections.length ++ body view.sections := by
  constructor
  · intro h
    unfold parse at h
    obtain ⟨_, hfits, h⟩ := bind_eq_ok.mp h
    obtain ⟨_, hmagic, h⟩ := bind_eq_ok.mp h
    obtain ⟨major, hmajor, h⟩ := bind_eq_ok.mp h
    obtain ⟨_, hfound, h⟩ := bind_eq_ok.mp h
    obtain ⟨minor, hminor, h⟩ := bind_eq_ok.mp h
    obtain ⟨flags, hflags, h⟩ := bind_eq_ok.mp h
    obtain ⟨_, hzero, h⟩ := bind_eq_ok.mp h
    obtain ⟨count, hcount, h⟩ := bind_eq_ok.mp h
    obtain ⟨⟨sections, cursor⟩, hsections, h⟩ := bind_eq_ok.mp h
    obtain ⟨_, hend, h⟩ := bind_eq_ok.mp h
    cases h
    have hheader : 20 ≤ bytes.length := require_eq_ok.mp hfits
    have hlt : 0 + count ≤ 2 ^ 32 := by
      have hlt := ((readLe_eq_ok hlen).mp hcount).1
      omega
    obtain rfl := require_eq_ok.mp hfound
    obtain rfl := require_eq_ok.mp hzero
    obtain rfl := require_eq_ok.mp hend
    obtain ⟨rfl, hspells, hascending⟩ := (parseSections_ok_iff hlen _ hlt hheader).mp hsections
    obtain ⟨hminorLt, hminor⟩ := (readLe_eq_ok hlen).mp hminor
    obtain ⟨hcountLt, hcount⟩ := (readLe_eq_ok hlen).mp hcount
    have hwhole := (spells_append (length_header _ _)).mpr ⟨spells_header.mpr
      ⟨(spells_magic (by omega)).mpr (require_eq_ok.mp hmagic), ((readLe_eq_ok hlen).mp hmajor).2,
        hminor, ((readLe_eq_ok hlen).mp hflags).2, hcount⟩, hspells⟩
    have hdrop := hwhole.drop
    rw [List.drop_zero, List.drop_length, List.append_nil] at hdrop
    exact ⟨hminorLt, hcountLt, hascending, hdrop⟩
  · rintro ⟨hminor, hcount, hascending, hbytes⟩
    obtain ⟨minor, sections⟩ := view
    dsimp only at hminor hcount hascending hbytes
    have hwhole : Spells bytes 0 (header minor sections.length ++ body sections) bytes.length :=
      ⟨by rw [← hbytes, List.drop_length, List.append_nil, List.drop_zero],
        by rw [← hbytes, Nat.zero_add], Nat.le_refl _⟩
    obtain ⟨hheader, hsections⟩ := (spells_append (length_header _ _)).mp hwhole
    obtain ⟨hmagic, hmajor, hminor', hflags, hcount'⟩ := spells_header.mp hheader
    have hfits : headerLen ≤ bytes.length := hheader.le
    have hmagic' := (spells_magic hmagic.le).mp hmagic
    have hmajor' : readU16 bytes 8 = .ok containerMajor :=
      (readLe_eq_ok hlen).mpr ⟨by decide, hmajor⟩
    have hminor' : readU16 bytes 10 = .ok minor := (readLe_eq_ok hlen).mpr ⟨hminor, hminor'⟩
    have hflags' : readU32 bytes headerFlagsOffset = .ok 0 :=
      (readLe_eq_ok hlen).mpr ⟨by decide, hflags⟩
    have hcount' : readU32 bytes sectionCountOffset = .ok sections.length :=
      (readLe_eq_ok hlen).mpr ⟨hcount, hcount'⟩
    have hsections' : parseSections bytes sections.length 0 headerLen none =
        .ok (sections, bytes.length) :=
      (parseSections_ok_iff hlen _ (by omega) hfits).mpr ⟨rfl, hsections, hascending⟩
    simp only [parse, require, if_pos hfits, hmagic', hmajor', hminor', hflags', hcount', hsections',
      ok_bind, if_true]
    rfl

end IzarraVM.Canonical
