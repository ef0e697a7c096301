import IzarraVM.KateaActs

/-! The reconcile pass: what is live, then renames and deletes, then files and directories. -/
namespace IzarraVM.Katea

structure Trail where
  world : World
  log : List (World × Act)

namespace Trail

variable (plan : Plan)

variable (t : Trail)

def act (a : Act) : Trail := ⟨(t.world.exec plan a).2, (t.world, a) :: t.log⟩

def succeeds (a : Act) : Bool := (t.world.exec plan a).1

def acts (l : List Act) : Trail := l.foldl (act plan) t

def note (n : Note) : Trail := t.act plan (.note n)

def read {α : Type} (t : Trail) (r : Reading α) : α × Trail :=
  ((t.world.read r).1, { t with world := (t.world.read r).2 })

end Trail

structure Gone where
  renames : List PendingRename
  deletes : List PendingDelete
  handled : List Key

section Phases

variable (plan : Plan) (w : World)

def gatherLive : Reading (List (ℕ × ParsedEntry)) :=
  Facade.scanDirs (w.overlay plan) w.facade w.files
    (plan.shuffle ℕ (3*w.passes) w.facade.dirPaths.keys)

def freshClaimants (live : List Facade.LiveEntry) (handled : List Key) (m : MirrorEntry) :
    List Facade.LiveEntry :=
  live.filter fun l =>
    decide (l.firstCluster = m.firstCluster ∧ l.isDir = m.isDir ∧ l.key ∉ w.facade.mirrored ∧
      l.key ∉ handled)

def renameTarget (live : List Facade.LiveEntry) (handled : List Key) (m : MirrorEntry) :
    Option (Key × PathBuf) :=
  if 2 ≤ m.firstCluster then
    match freshClaimants w live handled m with
    | [l] => (w.facade.dirPaths.lookup l.dirCluster).map fun hostDir => (l.key, hostDir)
    | _ => none
  else none

def chainFreed (m : MirrorEntry) : Reading Bool :=
  if m.firstCluster < 2 then pure true
  else do
    let entry ← Facade.fatEntry (w.overlay plan) w.facade w.files m.firstCluster
    pure (decide (entry = 0))

def disappear (live : List Facade.LiveEntry) (gone : Gone) (e : Key × MirrorEntry) :
    Reading Gone :=
  if e.1 ∈ live.map Facade.LiveEntry.key then pure gone
  else
    match renameTarget w live gone.handled e.2 with
    | some (newKey, hostDir) =>
      pure { gone with
        renames := gone.renames ++ [⟨e.1, newKey, e.2.hostPath, childPath hostDir newKey.2,
          e.2.firstCluster, e.2.isDir⟩]
        handled := newKey :: gone.handled }
    | none => do
      -- a FAT sector that cannot be read looks like a freed chain
      match ← (chainFreed plan w e.2).bracket with
      | none => pure gone
      | some freed =>
        if freed && !(live.any fun l => decide (l.firstCluster = e.2.firstCluster)) then
          pure { gone with
            deletes := gone.deletes ++ [⟨e.1, e.2.hostPath, e.2.firstCluster, e.2.isDir⟩] }
        else pure gone

def disappearances (live : List Facade.LiveEntry) : List (Key × MirrorEntry) → Gone → Reading Gone
  | [], gone => pure gone
  | e :: rest, gone => do
    let gone ← disappear plan w live gone e
    disappearances live rest gone

def mirroredEntries : List (Key × MirrorEntry) :=
  plan.shuffle (Key × MirrorEntry) (3*w.passes+1)
    (w.facade.mirrored.entries.map fun e => (e.1, e.2))

def deleteOrder (deletes : List PendingDelete) : List PendingDelete :=
  deletes.filter (fun d => !d.isDir) ++ deletes.filter fun d => d.isDir

structure PassFacts where
  mode : ReconcileMode
  ambiguous : List Key
  handled : List Key

def directoryImage (d : ℕ) : Reading (Option (Facade.ChainFacts × Option (List DirEntry))) := do
  let before ← Reading.failures
  match ← Facade.chainAndFacts (w.overlay plan) w.facade w.files d with
  | none => pure none
  | some facts =>
    if facts.inRange then do
      let raw ← Facade.readEntries (w.overlay plan) w.facade w.files facts.chain
      let after ← Reading.failures
      pure (some (facts, if after = before then some raw else none))
    else pure none

inductive Decision where
  | skip
  | now (n : Note)
  | later (a : Act)

structure Site where
  dirCluster : ℕ
  hostDir : PathBuf
  dirWritten : Bool

def boundPath (site : Site) (name : Name83) : PathBuf :=
  ((w.facade.mirrored.lookup (site.dirCluster, name)).map MirrorEntry.hostPath).getD
    (childPath site.hostDir name)

def unchangedSince (g : Gather) (state : FileState) : Bool :=
  g.allPresent && decide (g.size = state.size ∧ g.chainId = state.chainId ∧ state.chainSeq ≤ g.seq)

def fileState (firstCluster size : ℕ) (chain : List ℕ) : FileState where
  firstCluster := firstCluster
  size := size
  chainId := plan.chainId chain
  chainSeq := (chain.map fun c =>
    w.facade.store.maxSeqIn (w.facade.clusterToLba c 0) w.facade.geo.spc).foldl max 0

def gatherFile (site : Site) (name : Name83) (chain : List ℕ) (state : FileState)
    (before : ℕ) : Reading Decision := do
  let key := (site.dirCluster, name)
  let lbas := (w.facade.chainLbas chain).take (divCeil state.size sectorBytes)
  let sectors ← lbas.mapM' (Facade.sectorAt (w.overlay plan) w.facade w.files)
  let after ← Reading.failures
  if after ≠ before then pure (.now (.retry key state))
  else
    let data := (sectors.flatMap fun s => List.ofFn s).take state.size
    let gather : Gather :=
      ⟨state.size, state.chainId, w.facade.store.seq, lbas.all w.facade.store.wasWritten⟩
    let fingerprint := plan.fingerprint data
    if (w.facade.mirrored.lookup key).bind MirrorEntry.lastFingerprint = some fingerprint then
      pure (.later (.note (.watermark key gather)))
    else
      pure (.later (.write ⟨boundPath w site name, data, key, fingerprint, state.firstCluster,
        state, gather, chain⟩))

def decideTouched (pass : PassFacts) (site : Site) (name : Name83) (state : FileState)
    (chain : List ℕ) (repointed : Bool) (before : ℕ) : Reading Decision :=
  let key := (site.dirCluster, name)
  if key ∈ pass.ambiguous then pure (.now (.block [key]))
  else if ((w.facade.mirrored.lookup key).bind MirrorEntry.lastGather).any
      fun g => unchangedSince g state then
    pure (.now (.settle key))
  else if pass.mode = .afterWrite ∧ w.facade.retryGathers.lookup key ≠ some state ∧ !repointed then
    pure (.later (.stream ⟨boundPath w site name, key, state.firstCluster, state.size, chain, state,
      none, true⟩))
  else gatherFile plan w site name chain state before

def decideFile (pass : PassFacts) (site : Site) (name : Name83) (firstCluster size : ℕ) :
    Reading Decision := do
  let key := (site.dirCluster, name)
  let before ← Reading.failures
  match ← Facade.chainAndFacts (w.overlay plan) w.facade w.files firstCluster with
  | none => pure .skip
  | some facts =>
    let capacity := facts.chain.length*(w.facade.geo.spc*sectorBytes)
    let repointed := w.facade.chainShiftsProjection key facts.chain
    let isNew := decide (key ∉ w.facade.mirrored)
    if facts.inRange && decide (size ≤ capacity) && decide (key ∉ pass.handled) &&
        (facts.written || (site.dirWritten && isNew) || repointed) then
      decideTouched plan w pass site name (fileState plan w firstCluster size facts.chain)
        facts.chain repointed before
    else pure .skip

def decideEntry (pass : PassFacts) (site : Site) (e : ParsedEntry) : Reading Decision :=
  match classify e w.facade.systemNames with
  | .skip => pure .skip
  | .makeDir name firstCluster =>
    if (site.dirCluster, name) ∈ pass.handled then pure .skip
    else
      pure (.later (.mkdir ⟨site.dirCluster, name, firstCluster, childPath site.hostDir name,
        decide (pass.mode = .final) || site.dirWritten⟩))
  | .makeFile name firstCluster size => decideFile plan w pass site name firstCluster size

end Phases

section Pass

variable (plan : Plan)

def decideAll (pass : PassFacts) (site : Site) : List ParsedEntry → Trail → List Act × Trail
  | [], t => ([], t)
  | e :: rest, t =>
    let (decision, t) := t.read (decideEntry plan t.world pass site e)
    match decision with
    | .skip => decideAll pass site rest t
    | .now n => decideAll pass site rest (t.note plan n)
    | .later a =>
      let (later, t) := decideAll pass site rest t
      (a :: later, t)

def makeDirs (seen : List ℕ) : List Act → Trail → List ℕ × Trail
  | [], t => ([], t)
  | .mkdir p :: rest, t =>
    let visit := t.succeeds plan (.mkdir p) && decide (p.firstCluster ∉ seen)
    let (more, t) := makeDirs seen rest (t.act plan (.mkdir p))
    (if visit then more ++ [p.firstCluster] else more, t)
  | _ :: rest, t => makeDirs seen rest t

def streamOne (t : Trail) (p : PendingStream) : Trail :=
  if t.succeeds plan (.stream p) then t.act plan (.stream p)
  else ((t.act plan (.stream p)).note plan .failed).note plan (.retry p.key p.state)

def streamsOf (l : List Act) : List PendingStream :=
  l.filterMap fun
    | .stream p => some p
    | _ => none

def applyLater (seen : List ℕ) (later : List Act) (t : Trail) : List ℕ × Trail :=
  let t := t.acts plan (later.filter fun | .note _ => true | _ => false)
  let (visit, t) := makeDirs plan seen later t
  let t := (streamsOf later).foldl (streamOne plan) t
  (visit, t.acts plan (later.filter fun | .write _ => true | _ => false))

def visitDir (pass : PassFacts) (seen : List ℕ) (d : ℕ) (t : Trail) : List ℕ × Trail :=
  match t.world.facade.dirPaths.lookup d with
  | none => ([], t)
  | some hostDir =>
    let (image, t) := t.read (directoryImage plan t.world d)
    match image with
    | none => ([], t)
    | some (facts, raw) =>
      let t := t.note plan (.register facts.chain d)
      match raw with
      | none => ([], t)
      | some raw =>
        let (later, t) := decideAll plan pass ⟨d, hostDir, facts.written⟩ (parseDir raw) t
        applyLater plan seen later t

def materialize (pass : PassFacts) : ℕ → List ℕ → List ℕ → Trail → Trail
  | 0, _, _, t => t
  | _+1, [], _, t => t
  | fuel+1, d :: work, seen, t =>
    if d ∈ seen then materialize pass fuel work seen t
    else
      let (visit, t) := visitDir plan pass (d :: seen) d t
      materialize pass fuel (visit ++ work) (d :: seen) t

def reconcilePhases (mode : ReconcileMode) (live : List Facade.LiveEntry) (ambiguous : List Key)
    (t : Trail) : Trail :=
  let (gone, t) := t.read
    (disappearances plan t.world live (mirroredEntries plan t.world) ⟨[], [], []⟩)
  let t := t.acts plan (gone.renames.map .rename)
  let t := t.acts plan ((deleteOrder gone.deletes).map .delete)
  materialize plan ⟨mode, ambiguous, gone.handled⟩ plan.fuel
    (plan.shuffle ℕ (3*t.world.passes+2) t.world.facade.dirPaths.keys) [] t

def reconcileMode (mode : ReconcileMode) (t : Trail) : Trail :=
  let (found, t) := t.read (gatherLive plan t.world).bracket
  match found with
  | none => t
  | some found =>
    let live := t.world.facade.liveEntries found
    let (ambiguous, t) := t.read
      (t.world.facade.ambiguousByFullScan (t.world.overlay plan) t.world.files live).bracket
    match ambiguous with
    | none => t
    | some ambiguous =>
      reconcilePhases plan mode live ambiguous
        (t.note plan (.sweep (live.map Facade.LiveEntry.key)))

end Pass

end IzarraVM.Katea
