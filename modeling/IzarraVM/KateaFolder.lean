import IzarraVM.KateaTree

/-! The tree of a mounted folder. Links and devices, which the walk skips, are not listed. -/
namespace IzarraVM.Katea

def isLegal83 (c : Char) : Bool :=
  c.isAlphanum || c ∈ ['!', '#', '$', '%', '&', '\x27', '(', ')', '-', '@', '^', '_', '\x60',
    '\x7b', '\x7d', '~']

def clean (s : List Char) : List Char :=
  s.filterMap fun c =>
    let c := c.toUpper
    if isLegal83 c then some c else if c = ' ' ∨ c = '.' then none else some '_'

variable (raw : List Char)

variable (isDir : Bool)

def splitStemExt : List Char × List Char :=
  let afterDot := (raw.reverse.takeWhile (· ≠ '.')).reverse
  let beforeDot := raw.take (raw.length-afterDot.length-1)
  if isDir ∨ beforeDot = [] then (clean raw, clean []) else (clean beforeDot, clean afterDot)

def pack83 (stem ext : List Char) : Name83 := fun i =>
  let stem := if stem = [] then ['_'] else stem
  let c := if i.val < 8 then stem.getD i.val ' ' else ext.getD (i.val-8) ' '
  UInt8.ofNat c.toNat

def make83 : Name83 :=
  let (stem, ext) := splitStemExt raw isDir
  pack83 stem ext

def make83WithTilde (n : ℕ) : Name83 :=
  let (stem, ext) := splitStemExt raw isDir
  let tail := '~' :: Nat.toDigits 10 n
  pack83 (stem.take (8-tail.length) ++ tail) ext

def uniqueName (used : List Name83) : Name83 :=
  let base := make83 raw isDir
  if base ∉ used then base
  else
    let candidates := (List.range' 1 999).map (make83WithTilde raw isDir)
    (candidates.find? fun c => decide (c ∉ used)).getD base

inductive FolderEntry where
  | file (name : Component) (len : ℕ)
  | dir (name : Component) (entries : List FolderEntry)

structure Found where
  files : List TreeFile
  subdirs : List TreeSubdir
  used : List Name83

def walkEntry (sub : PathBuf → List FolderEntry → TreeDir) (host : PathBuf) (found : Found) :
    FolderEntry → Found
  | .file name len =>
    -- a file that FAT32 cannot represent is skipped
    if u32Max ≤ len then found
    else
      let short := uniqueName name false found.used
      { found with
        files := found.files ++ [⟨short, .hostFile (host ++ [name]) len, 0, 0⟩]
        used := found.used ++ [short] }
  | .dir name entries =>
    let short := uniqueName name true found.used
    { found with
      subdirs := found.subdirs ++ [⟨short, sub (host ++ [name]) entries⟩]
      used := found.used ++ [short] }

def maxDepth : ℕ := 32

def walkInto : ℕ → PathBuf → Found → List FolderEntry → Found
  | 0, _, found, _ => found
  | depth+1, host, found, entries =>
    entries.foldl (walkEntry (fun path entries =>
      let inner := walkInto depth path ⟨[], [], []⟩ entries
      .mk inner.files inner.subdirs 0 0 0 path) host) found

structure SystemFile where
  name : List Char
  bytes : List UInt8
  fits : bytes.length < 2^32

def foldLiteral83 (name : List Char) : Name83 := fun i =>
  let base := name.takeWhile (· ≠ '.')
  let ext := (name.drop (base.length+1))
  let c := if i.val < 8 then base.getD i.val ' ' else ext.getD (i.val-8) ' '
  UInt8.ofNat c.toNat

def dosFolderBinaries : List (List Char) :=
  ["COMMAND.COM", "TOKAMOUS.COM", "TOKAEMM.SYS", "GSWMODE.COM", "UNHALT.COM", "SNDCTRL.COM",
    "SNDMIXER.COM", "MOVE.EXE", "SORT.EXE", "MEM.EXE", "ATTRIB.EXE", "CHOICE.EXE", "MORE.EXE",
    "FIND.EXE", "LABEL.EXE", "DELTREE.COM", "XCOPY.EXE", "EDIT.COM", "TOKADESK.EXE",
    "GLIDE2X.OVL"].map String.toList

def inDosFolder (f : SystemFile) : Bool := f.name.map Char.toUpper ∈ dosFolderBinaries

def dosName : Name83 := foldLiteral83 ['D', 'O', 'S']

def systemTreeFile (f : SystemFile) : TreeFile := ⟨foldLiteral83 f.name, .inMemory f.bytes, 0, 0⟩

def overlay (root : PathBuf) (systemFiles : List SystemFile) : Found :=
  let dos := (systemFiles.filter inDosFolder).map systemTreeFile
  let atRoot := (systemFiles.filter fun f => !inDosFolder f).map systemTreeFile
  let dosDir : List TreeSubdir := if dos.isEmpty then [] else
    [⟨dosName, .mk dos [] 0 0 0 (root ++ [['D', 'O', 'S']])⟩]
  ⟨atRoot, dosDir, atRoot.map TreeFile.name ++ dosDir.map SubdirOf.name⟩

def buildTree (root : PathBuf) (systemFiles : List SystemFile) (entries : List FolderEntry) :
    TreeDir :=
  let found := walkInto maxDepth root (overlay root systemFiles) entries
  .mk found.files found.subdirs 0 0 0 root

end IzarraVM.Katea
