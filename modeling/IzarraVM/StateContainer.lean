import IzarraVM.LittleEndian

/-! The container of canonical machine state (`canonical_state.rs`). -/
namespace IzarraVM.Canonical

abbrev Bytes : Type := List UInt8

def containerMagic : Bytes := [0x49, 0x5a, 0x43, 0x53, 0x54, 0x41, 0x54, 0x45]
def containerMajor : ℕ := 1
def containerMinor : ℕ := 0
def headerLen : ℕ := 20
def sectionHeaderLen : ℕ := 16
def headerFlagsOffset : ℕ := 12
def sectionCountOffset : ℕ := 16
def optionalSectionFlag : ℕ := 1

structure SectionId where
  get : ℕ
  pos : 0 < get
  lt : get < 2 ^ 32
  deriving DecidableEq

def SectionId.new (value : ℕ) : Option SectionId :=
  if h : 0 < value ∧ value < 2 ^ 32 then some ⟨value, h.1, h.2⟩ else none

structure SectionVersion where
  get : ℕ
  pos : 0 < get
  lt : get < 2 ^ 16
  deriving DecidableEq

def SectionVersion.new (value : ℕ) : Option SectionVersion :=
  if h : 0 < value ∧ value < 2 ^ 16 then some ⟨value, h.1, h.2⟩ else none

inductive Requirement where
  | required
  | optional
  deriving DecidableEq

def Requirement.flags : Requirement → ℕ
  | .required => 0
  | .optional => optionalSectionFlag

def Requirement.fromFlags (flags : ℕ) : Option Requirement :=
  if flags = 0 then some .required
  else if flags = optionalSectionFlag then some .optional
  else none

inductive CanonicalStateError where
  | allocationFailed
  | lengthOverflow
  | sectionCountOverflow
  | sectionOutOfOrder (previous next : ℕ)
  | truncatedHeader
  | invalidMagic
  | unsupportedMajorVersion (found : ℕ)
  | unsupportedHeaderFlags (found : ℕ)
  | truncatedSectionHeader (index : ℕ)
  | reservedSectionId
  | reservedSectionVersion (sectionId : ℕ)
  | unsupportedSectionFlags (sectionId found : ℕ)
  | truncatedSectionPayload (sectionId declared remaining : ℕ)
  | trailingBytes (count : ℕ)
  deriving DecidableEq

abbrev Result : Type → Type := Except CanonicalStateError

def isizeMax : ℕ := 2 ^ 63 - 1

def reserve (elementSize len additional : ℕ) : Result Unit :=
  if 2 ^ 64 ≤ len + additional then .error .lengthOverflow
  else if isizeMax < elementSize * (len + additional) then .error .allocationFailed
  else .ok ()

def checkedAdd (left right : ℕ) : Result ℕ :=
  if left + right < 2 ^ 64 then .ok (left + right) else .error .lengthOverflow

def checkedSub (left right : ℕ) : Result ℕ :=
  if right ≤ left then .ok (left - right) else .error .lengthOverflow

def readLe (width : ℕ) (bytes : Bytes) (offset : ℕ) : Result ℕ := do
  let last ← checkedAdd offset width
  if last ≤ bytes.length then .ok (leNat ((bytes.drop offset).take width))
  else .error .truncatedHeader

def readU16 : Bytes → ℕ → Result ℕ := readLe 2
def readU32 : Bytes → ℕ → Result ℕ := readLe 4
def readU64 : Bytes → ℕ → Result ℕ := readLe 8

def copyAt (bytes : Bytes) (offset : ℕ) (value : Bytes) : Bytes :=
  bytes.take offset ++ value ++ bytes.drop (offset + value.length)

/-- A section's callback: it appends values, a field each, and sees whether there was room. -/
inductive Writes where
  | done (result : Result Unit)
  | append (value : Bytes) (next : Result Unit → Writes)

def Writes.exec : Bytes → Writes → Result Unit × Bytes
  | bytes, .done result => (result, bytes)
  | bytes, .append value next =>
    match reserve 1 bytes.length value.length with
    | .ok _ => (next (.ok ())).exec (bytes ++ value)
    | .error e => (next (.error e)).exec bytes

def writeRawBytes (value : Bytes) : Writes := .append value .done

structure Writer where
  bytes : Bytes
  sectionCount : ℕ
  lastSection : Option ℕ

def Writer.new : Result Writer := do
  reserve 1 0 headerLen
  return {
    bytes := containerMagic ++ leBytes 2 containerMajor ++ leBytes 2 containerMinor ++ leBytes 4 0 ++
      leBytes 4 0
    sectionCount := 0
    lastSection := none }

structure Request where
  id : SectionId
  version : SectionVersion
  requirement : Requirement
  write : Writes

def sectionBody (r : Request) (bytes : Bytes) : Result Unit × Bytes :=
  match reserve 1 bytes.length sectionHeaderLen with
  | .error e => (.error e, bytes)
  | .ok _ =>
    let bytes := bytes ++ leBytes 4 r.id.get ++ leBytes 2 r.version.get ++
      leBytes 2 r.requirement.flags
    let lengthOffset := bytes.length
    let bytes := bytes ++ leBytes 8 0
    let payloadStart := bytes.length
    let written := r.write.exec bytes
    let length : Result Bytes := do
      written.1
      let payloadLen ← checkedSub written.2.length payloadStart
      let _ ← checkedAdd lengthOffset 8
      return copyAt written.2 lengthOffset (leBytes 8 payloadLen)
    match length with
    | .ok bytes => (.ok (), bytes)
    | .error e => (.error e, written.2)

def Writer.section (w : Writer) (r : Request) : Result Unit × Writer :=
  let outOfOrder := w.lastSection.filter fun previous => r.id.get ≤ previous
  match outOfOrder with
  | some previous => (.error (.sectionOutOfOrder previous r.id.get), w)
  | none =>
    if w.sectionCount + 1 < 2 ^ 32 then
      let sectionStart := w.bytes.length
      match sectionBody r w.bytes with
      | (.error e, bytes) => (.error e, { w with bytes := bytes.take sectionStart })
      | (.ok _, bytes) =>
        (.ok (), ⟨bytes, w.sectionCount + 1, some r.id.get⟩)
    else (.error .sectionCountOverflow, w)

structure Section where
  id : SectionId
  version : SectionVersion
  requirement : Requirement
  payload : Bytes
  deriving DecidableEq

structure View where
  minorVersion : ℕ
  sections : List Section
  deriving DecidableEq

def okOr {α : Type} (value : Option α) (e : CanonicalStateError) : Result α :=
  match value with
  | some a => .ok a
  | none => .error e

def require (holds : Prop) [Decidable holds] (e : CanonicalStateError) : Result Unit :=
  if holds then .ok () else .error e

def parseSection (bytes : Bytes) (index cursor : ℕ) (lastSection : Option ℕ) :
    Result (Section × ℕ) := do
  let headerEnd ← checkedAdd cursor sectionHeaderLen
  require (headerEnd ≤ bytes.length) (.truncatedSectionHeader index)
  let rawId ← readU32 bytes cursor
  let id ← okOr (SectionId.new rawId) .reservedSectionId
  match lastSection.filter fun previous => rawId ≤ previous with
  | some previous => .error (.sectionOutOfOrder previous rawId)
  | none =>
    let rawVersion ← readU16 bytes (cursor + 4)
    let version ← okOr (SectionVersion.new rawVersion) (.reservedSectionVersion rawId)
    let rawFlags ← readU16 bytes (cursor + 6)
    let requirement ← okOr (Requirement.fromFlags rawFlags) (.unsupportedSectionFlags rawId rawFlags)
    let declared ← readU64 bytes (cursor + 8)
    let payloadEnd ← checkedAdd headerEnd declared
    require (payloadEnd ≤ bytes.length)
      (.truncatedSectionPayload rawId declared (bytes.length - headerEnd))
    return (⟨id, version, requirement, (bytes.drop headerEnd).take declared⟩, payloadEnd)

def sectionSize : ℕ := 24

def parseSections (bytes : Bytes) : ℕ → ℕ → ℕ → Option ℕ → Result (List Section × ℕ)
  | 0, _, cursor, _ => .ok ([], cursor)
  | left + 1, index, cursor, lastSection => do
    let (here, next) ← parseSection bytes index cursor lastSection
    reserve sectionSize index 1
    let (rest, last) ← parseSections bytes left (index + 1) next (some here.id.get)
    return (here :: rest, last)

def parse (bytes : Bytes) : Result View := do
  require (headerLen ≤ bytes.length) .truncatedHeader
  require (bytes.take 8 = containerMagic) .invalidMagic
  let major ← readU16 bytes 8
  require (major = containerMajor) (.unsupportedMajorVersion major)
  let minorVersion ← readU16 bytes 10
  let headerFlags ← readU32 bytes headerFlagsOffset
  require (headerFlags = 0) (.unsupportedHeaderFlags headerFlags)
  let sectionCount ← readU32 bytes sectionCountOffset
  let (sections, cursor) ← parseSections bytes sectionCount 0 headerLen none
  require (cursor = bytes.length) (.trailingBytes (bytes.length - cursor))
  return ⟨minorVersion, sections⟩

def Writer.finish (w : Writer) : Result Bytes := do
  let _ ← checkedAdd sectionCountOffset 4
  let bytes := copyAt w.bytes sectionCountOffset (leBytes 4 w.sectionCount)
  let _ ← parse bytes
  return bytes

def Writer.sections : Writer → List Request → List (Result Unit) × Writer
  | w, [] => ([], w)
  | w, r :: rest =>
    let (result, w) := w.section r
    let (results, w) := w.sections rest
    (result :: results, w)

end IzarraVM.Canonical
