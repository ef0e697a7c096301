import IzarraVM.FaultyReads
import IzarraVM.KateaFacade

/-! What a pass reads of the guest's disk, whatever the reads are. -/
namespace IzarraVM.Katea.Facade

structure LiveEntry where
  dirCluster : ℕ
  name : Name83
  firstCluster : ℕ
  size : ℕ
  isDir : Bool

def LiveEntry.key (l : LiveEntry) : Key := (l.dirCluster, l.name)

abbrev FatWalk := Option (ℕ × Option Sector)

section Reads

variable {m : Type → Type} [Monad m] (get : ℕ → m (Option Sector)) (f : Facade) (host : HostFiles)

def sectorAt (lba : ℕ) : m Sector := do
  match ← get lba with
  | some s => pure s
  | none => pure (f.baseSector host lba).bytes

def fatLba (c : ℕ) : ℕ := f.geo.partStart+(reservedSectors+c*4/sectorBytes)

def entryIn (sector : Sector) (c : ℕ) : ℕ := le32At sector (c*4%sectorBytes)%2^28

def fatEntry (c : ℕ) : m ℕ := do
  let sector ← sectorAt get f host (f.fatLba c)
  pure (entryIn sector c)

def fatEntryWalked (c : ℕ) (walk : FatWalk) : m (ℕ × FatWalk) :=
  let within := c*4/sectorBytes
  if f.geo.fatsz ≤ within then do
    let entry ← fatEntry get f host c
    pure (entry, walk)
  else do
    let overlay ←
      match walk.filter fun w => decide (w.1 = within) with
      | some (_, overlay) => pure overlay
      | none => get (f.fatLba c)
    pure ((overlay.map (entryIn · c)).getD (f.fat.fatEntry c%2^28), some (within, overlay))

def chainFrom : ℕ → ℕ → FatWalk → m (Option (List ℕ))
  | 0, _, _ => pure none
  | max+1, c, walk => do
    let (next, walk) ← fatEntryWalked get f host c walk
    if 0x0FFFFFF8 ≤ next then pure (some [c])
    else if next < 2 then pure none
    else do
      let rest ← chainFrom max next walk
      pure (rest.map (c :: ·))

def chainOf (first : ℕ) : m (Option (List ℕ)) :=
  if first < 2 then pure (some []) else chainFrom get f host f.maxChain first none

def clusterWritten (c : ℕ) : Bool :=
  f.clusterInRange c && f.store.wasWrittenSpan (f.clusterToLba c 0) f.geo.spc

structure ChainFacts where
  chain : List ℕ
  inRange : Bool
  written : Bool

def factsOf (chain : List ℕ) : ChainFacts :=
  ⟨chain, chain.all f.clusterInRange, chain.any f.clusterWritten⟩

def chainAndFacts (first : ℕ) : m (Option ChainFacts) := do
  let chain ← chainOf get f host first
  pure (chain.map f.factsOf)

def sectorEntries (s : Sector) : List DirEntry :=
  (List.range 16).map fun e i => byteAt s (32*e+i.val)

def chainLbas (chain : List ℕ) : List ℕ :=
  chain.flatMap fun c => (List.range f.geo.spc).map (f.clusterToLba c)

def readEntries (chain : List ℕ) : m (List DirEntry) := do
  let sectors ← (f.chainLbas chain).mapM' (sectorAt get f host)
  pure (sectors.flatMap sectorEntries)

def scanDir (dirCluster : ℕ) : m (List (ℕ × ParsedEntry)) := do
  match ← chainAndFacts get f host dirCluster with
  | none => pure []
  | some facts =>
    if facts.inRange then do
      let raw ← readEntries get f host facts.chain
      pure ((parseDir raw).map fun e => (dirCluster, e))
    else pure []

def scanDirs (dirs : List ℕ) : m (List (ℕ × ParsedEntry)) := do
  let found ← dirs.mapM' (scanDir get f host)
  pure found.flatten

end Reads

variable (f : Facade)

def liveOf (system : List Name83) (p : ℕ × ParsedEntry) : Option LiveEntry :=
  match classify p.2 system with
  | .skip => none
  | .makeDir name firstCluster => some ⟨p.1, name, firstCluster, 0, true⟩
  | .makeFile name firstCluster size => some ⟨p.1, name, firstCluster, size, false⟩

def liveEntries (found : List (ℕ × ParsedEntry)) : List LiveEntry :=
  found.filterMap (liveOf f.systemNames)

def protectedKeys (found : List (ℕ × ParsedEntry)) : List Key :=
  (found.filter fun p => decide (classify p.2 f.systemNames = .skip ∧ p.2.name ∈ f.systemNames ∧
    classify p.2 [] ≠ .skip)).map fun p => (p.1, p.2.name)

structure Claims where
  owners : AList fun _ : ℕ => Key
  ambiguous : List Key

def claimOne (key : Key) (claims : Claims) (cluster : ℕ) : Claims :=
  let ambiguous :=
    if cluster ∈ f.directoryClusters then claims.ambiguous.insert key else claims.ambiguous
  { owners := claims.owners.insert cluster key
    ambiguous :=
      match claims.owners.lookup cluster with
      | some other => if other ≠ key then (ambiguous.insert other).insert key else ambiguous
      | none => ambiguous }

def claimChain (claims : Claims) (p : Key × Option (List ℕ)) : Claims :=
  (p.2.getD []).foldl (f.claimOne p.1) claims

def ambiguousByFullScan {m : Type → Type} [Monad m] (get : ℕ → m (Option Sector))
    (host : HostFiles) (live : List LiveEntry) : m (List Key) := do
  let files := live.filter fun l => !l.isDir && decide (2 ≤ l.firstCluster)
  let chains ← files.mapM' fun l => do
    let chain ← chainOf get f host l.firstCluster
    pure (l.key, chain)
  pure (chains.foldl f.claimChain ⟨∅, []⟩).ambiguous

def stored (lba : ℕ) : Id (Option Sector) :=
  match (f.store.get lba none).1 with
  | .ok sector => sector
  | .error _ => some zeroSector

def overlayRead (faults : ℕ → Option String) (lba : ℕ) : Reading (Option Sector) :=
  .device fun n =>
    match (f.store.get lba (faults n)).1 with
    | .ok sector => (sector, false)
    | .error _ => (some zeroSector, true)

section Gives

open Reading

variable {f : Facade} {host : HostFiles} {get : ℕ → Reading (Option Sector)}
  {view : ℕ → Id (Option Sector)} (hget : ∀ lba, Gives (get lba) (view lba))
include hget

theorem gives_sectorAt (lba : ℕ) : Gives (sectorAt get f host lba) (sectorAt view f host lba) := by
  refine (hget lba).seq fun sector => ?_
  cases sector <;> exact gives_pure _

theorem gives_fatEntry (c : ℕ) : Gives (fatEntry get f host c) (fatEntry view f host c) :=
  (gives_sectorAt hget _).seq fun _ => gives_pure _

theorem gives_fatEntryWalked (c : ℕ) (walk : FatWalk) :
    Gives (fatEntryWalked get f host c walk) (fatEntryWalked view f host c walk) := by
  unfold fatEntryWalked
  dsimp only
  split_ifs with hout
  · exact (gives_fatEntry hget c).seq fun _ => gives_pure _
  · split
    · exact (gives_pure _).seq fun _ => gives_pure _
    · exact (hget _).seq fun _ => gives_pure _

theorem gives_chainFrom (max c : ℕ) (walk : FatWalk) :
    Gives (chainFrom get f host max c walk) (chainFrom view f host max c walk) := by
  induction max generalizing c walk with
  | zero => exact gives_pure none
  | succ max ih =>
    refine (gives_fatEntryWalked hget c walk).seq fun p => ?_
    dsimp only
    split_ifs
    · exact gives_pure _
    · exact gives_pure _
    · exact (ih _ _).seq fun _ => gives_pure _

theorem gives_chainOf (first : ℕ) : Gives (chainOf get f host first) (chainOf view f host first) := by
  unfold chainOf
  split_ifs
  · exact gives_pure _
  · exact gives_chainFrom hget _ _ _

theorem gives_chainAndFacts (first : ℕ) :
    Gives (chainAndFacts get f host first) (chainAndFacts view f host first) :=
  (gives_chainOf hget first).seq fun _ => gives_pure _

theorem gives_readEntries (chain : List ℕ) :
    Gives (readEntries get f host chain) (readEntries view f host chain) :=
  (gives_mapM (gives_sectorAt hget) _).seq fun _ => gives_pure _

theorem gives_scanDir (d : ℕ) : Gives (scanDir get f host d) (scanDir view f host d) := by
  refine (gives_chainAndFacts hget d).seq fun facts => ?_
  cases facts with
  | none => exact gives_pure _
  | some facts =>
    dsimp only
    split_ifs
    · exact (gives_readEntries hget _).seq fun _ => gives_pure _
    · exact gives_pure _

theorem gives_scanDirs (dirs : List ℕ) :
    Gives (scanDirs get f host dirs) (scanDirs view f host dirs) :=
  (gives_mapM (gives_scanDir hget) dirs).seq fun _ => gives_pure _

end Gives

theorem get_ok_of_fault {s : SectorStore} {lba : ℕ} {fault : Option String} {sector : Option Sector}
    (h : (s.get lba fault).1 = .ok sector) : (s.get lba none).1 = .ok sector := by
  cases fault with
  | none => exact h
  | some e =>
    revert h
    unfold SectorStore.get
    split
    · exact id
    · split
      · exact id
      · split_ifs
        · unfold SectorStore.readSpilled SpillFile.readExactAt
          cases s.spill with
          | none => exact id
          | some file =>
            dsimp only
            split_ifs
            all_goals
              intro h
              cases h
        · exact id

/-- A read of the store that does not fail is what the store holds. -/
theorem gives_overlayRead (faults : ℕ → Option String) (lba : ℕ) :
    (f.overlayRead faults lba).Gives (f.stored lba) := by
  refine Reading.gives_device fun n => ?_
  unfold stored
  cases h : (f.store.get lba (faults n)).1 with
  | ok sector =>
    rw [get_ok_of_fault h]
    exact fun _ => rfl
  | error e =>
    intro hfail
    cases hfail

end IzarraVM.Katea.Facade
