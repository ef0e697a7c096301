import IzarraVM.HostFs
import IzarraVM.KateaVolume
import IzarraVM.LossyUtf8

/-! How the guest's directory bytes are read, and the host names they stand for. -/
namespace IzarraVM.Katea
open HostPath LossyUtf8

structure ParsedEntry where
  name : Name83
  attr : UInt8
  firstCluster : ℕ
  size : ℕ

def parseEntry (e : DirEntry) : ParsedEntry where
  name i := e ⟨i.val, by omega⟩
  attr := e 11
  firstCluster := le16At e 20*2^16+le16At e 26
  size := le32At e 28

def parseDir : List DirEntry → List ParsedEntry
  | [] => []
  | e :: rest =>
    if e 0 = 0x00 then []
    else if e 0 = 0xE5 then parseDir rest
    else parseEntry e :: parseDir rest

def illegal83Bytes : List UInt8 :=
  [0x22, 0x2A, 0x2B, 0x2C, 0x2F, 0x3A, 0x3B, 0x3C, 0x3D, 0x3E, 0x3F, 0x5B, 0x5C, 0x5D, 0x7C, 0x2E]

def nameIsHostSafe (name : Name83) : Bool :=
  !(List.ofFn name).any fun b => b < 0x20 || b = 0x7F || b ∈ illegal83Bytes

inductive EntryAction where
  | skip
  | makeDir (name : Name83) (firstCluster : ℕ)
  | makeFile (name : Name83) (firstCluster size : ℕ)
deriving DecidableEq

def classify (e : ParsedEntry) (system : List Name83) : EntryAction :=
  if e.name 0 = 0x2E ∨ e.name 0 = 0x20 then .skip
  else if e.attr &&& 0x0F = 0x0F ∨ e.attr &&& 0x08 ≠ 0 then .skip
  else if !nameIsHostSafe e.name then .skip
  else if e.name ∈ system then .skip
  else if e.attr &&& 0x10 ≠ 0 then
    if e.firstCluster < 2 then .skip else .makeDir e.name e.firstCluster
  else .makeFile e.name e.firstCluster e.size

def nameBytes (raw : Name83) : List UInt8 × List UInt8 :=
  ((List.ofFn raw).take 8, (List.ofFn raw).drop 8)

def decode83 (raw : Name83) : List Char :=
  let base := trimEnd (fromUtf8Lossy (nameBytes raw).1)
  let ext := trimEnd (fromUtf8Lossy (nameBytes raw).2)
  if ext = [] then base else base ++ '.' :: ext

/-- The host file name of a short name. Only a Windows host has names to step around. -/
def hostChildName (name : Name83) : List Char := decode83 name

def childPath (hostDir : PathBuf) (name : Name83) : PathBuf := join hostDir (hostChildName name)

def tempPath (path : PathBuf) : Option PathBuf :=
  (fileName path).map fun name => withFileName path (name ++ ['.', 'k', 'a', 't', 't', 'm', 'p'])

def EntryAction.name? : EntryAction → Option Name83
  | .skip => none
  | .makeDir name _ => some name
  | .makeFile name _ _ => some name

/-- An entry is acted on under its own name, which is safe. -/
theorem classify_name {e : ParsedEntry} {system : List Name83} {name : Name83}
    (h : (classify e system).name? = some name) :
    name = e.name ∧ nameIsHostSafe name = true := by
  unfold classify at h
  split_ifs at h with h1 h2 hsafe
  all_goals cases h
  all_goals exact ⟨rfl, by simpa using hsafe⟩

theorem safe_byte {name : Name83} (h : nameIsHostSafe name = true) {b : UInt8}
    (hb : b ∈ List.ofFn name) : 0x20 ≤ b.toNat ∧ b ∉ illegal83Bytes := by
  simp only [nameIsHostSafe, Bool.not_eq_true', List.any_eq_false] at h
  have hlegal := h b hb
  simp only [Bool.or_eq_true, decide_eq_true_eq, not_or] at hlegal
  exact ⟨Nat.not_lt.mp hlegal.1.1, hlegal.2⟩

/-- No character of a decoded part is one that the name could not spell out. -/
theorem decoded_char {name : Name83} (h : nameIsHostSafe name = true) {bytes : List UInt8}
    (hsub : bytes ⊆ List.ofFn name) {x : Char} (hx : x ∈ trimEnd (fromUtf8Lossy bytes)) :
    x ≠ '/' ∧ x ≠ '\\' ∧ x ≠ ':' ∧ x ≠ '\x00' ∧ x ≠ '.' := by
  have hbyte (hascii : x.toNat < 0x80) : 0x20 ≤ x.toNat ∧ UInt8.ofNat x.toNat ∉ illegal83Bytes := by
    obtain ⟨b, hb, hxb⟩ := exists_byte_of_mem (mem_of_mem_trimEnd hx) hascii
    obtain ⟨hlow, hlegal⟩ := safe_byte h (hsub hb)
    rw [hxb, UInt8.ofNat_toNat]
    exact ⟨hlow, hlegal⟩
  refine ⟨?_, ?_, ?_, ?_, ?_⟩ <;> rintro rfl
  · exact (hbyte (by decide)).2 (by decide)
  · exact (hbyte (by decide)).2 (by decide)
  · exact (hbyte (by decide)).2 (by decide)
  · exact absurd (hbyte (by decide)).1 (by decide)
  · exact (hbyte (by decide)).2 (by decide)

/-- A safe name that decodes to something at all decodes to a plain component. -/
theorem hostChildName_plain {name : Name83} (h : nameIsHostSafe name = true)
    (hne : hostChildName name ≠ []) : Plain (hostChildName name) := by
  have hbase {x : Char} (hx : x ∈ trimEnd (fromUtf8Lossy (nameBytes name).1)) :=
    decoded_char h (List.take_subset 8 _) hx
  have hext {x : Char} (hx : x ∈ trimEnd (fromUtf8Lossy (nameBytes name).2)) :=
    decoded_char h (List.drop_subset 8 _) hx
  revert hne
  simp only [hostChildName, decode83]
  generalize trimEnd (fromUtf8Lossy (nameBytes name).1) = base at hbase ⊢
  generalize trimEnd (fromUtf8Lossy (nameBytes name).2) = ext at hext ⊢
  intro hne
  split_ifs at hne ⊢ with hnil
  · refine ⟨hne, ?_, ?_, ?_⟩
    · rintro rfl
      exact (hbase (x := '.') (by simp)).2.2.2.2 rfl
    · rintro rfl
      exact (hbase (x := '.') (by simp)).2.2.2.2 rfl
    · intro x hx
      obtain ⟨h1, h2, h3, h4, -⟩ := hbase hx
      exact ⟨h1, h2, h3, h4⟩
  · refine ⟨hne, ?_, ?_, ?_⟩
    · intro hdot
      rcases base with _ | ⟨b, base⟩
      · exact hnil (List.cons.inj hdot).2
      · simp at hdot
    · intro hdots
      rcases base with _ | ⟨b, base⟩
      · have : ext = ['.'] := (List.cons.inj hdots).2
        exact (hext (x := '.') (by simp [this])).2.2.2.2 rfl
      · rw [List.cons_append] at hdots
        exact (hbase (x := b) (by simp)).2.2.2.2 (List.cons.inj hdots).1
    · intro x hx
      rcases List.mem_append.mp hx with hx | hx
      · obtain ⟨h1, h2, h3, h4, -⟩ := hbase hx
        exact ⟨h1, h2, h3, h4⟩
      · rcases List.mem_cons.mp hx with rfl | hx
        · decide
        · obtain ⟨h1, h2, h3, h4, -⟩ := hext hx
          exact ⟨h1, h2, h3, h4⟩

end IzarraVM.Katea
