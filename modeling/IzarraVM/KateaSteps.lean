import IzarraVM.KateaBindings

/-! What the acts of a pass are decided from. -/
namespace IzarraVM.Katea
open Reading

def World.Live (w : World) (l : Facade.LiveEntry) : Prop :=
  ∃ d ∈ w.facade.dirPaths, ∃ p ∈ (Facade.scanDir w.facade.stored w.facade w.files d).run,
    Facade.liveOf w.facade.systemNames p = some l

def World.fatEntryNow (w : World) (c : ℕ) : Id ℕ :=
  Facade.fatEntry w.facade.stored w.facade w.files c

/-- In the guest's view, by reads that all succeeded, the entry is gone, its first cluster reads
free, and nothing live claims that. -/
structure Justified (plan : Plan) (w : World) (d : PendingDelete) : Prop where
  gone : ∀ l, w.Live l → l.key ≠ d.key
  unclaimed : ∀ l, w.Live l → l.firstCluster ≠ d.firstCluster
  freed : d.firstCluster < 2 ∨ (w.fatEntryNow d.firstCluster).run = 0
  gathered : RanClean w.tally.reads (gatherLive plan w)
  probed : d.firstCluster < 2 ∨ RanClean w.tally.reads
    (Facade.fatEntry (w.overlay plan) w.facade w.files d.firstCluster)

inductive Names (b : Bindings) (key : Key) (path : PathBuf) : Prop where
  | entry (h : b.entry key = some path)
  | projection (h : b.projection key = some path)
  | fresh {hostDir : PathBuf} (h : b.entry key = none) (hdir : b.dir key.1 = some hostDir)
      (hpath : path = childPath hostDir key.2) (hsafe : nameIsHostSafe key.2 = true)

inductive Sound (plan : Plan) (w₀ : World) (b : Bindings) : Act → Prop where
  | note (n : Note) : Sound plan w₀ b (.note n)
  | rename {r : PendingRename} {hostDir : PathBuf} (old : b.entry r.oldKey = some r.oldPath)
      (new : b.entry r.newKey = none) (hdir : w₀.bindings.dir r.newKey.1 = some hostDir)
      (hpath : r.newPath = childPath hostDir r.newKey.2)
      (hsafe : nameIsHostSafe r.newKey.2 = true) : Sound plan w₀ b (.rename r)
  | delete {d : PendingDelete} (hbound : b.entry d.key = some d.path)
      (h : Justified plan w₀ d) : Sound plan w₀ b (.delete d)
  | mkdir {p : PendingDir} {hostDir : PathBuf} (hdir : b.dir p.parent = some hostDir)
      (hpath : p.path = childPath hostDir p.name) (hsafe : nameIsHostSafe p.name = true) :
      Sound plan w₀ b (.mkdir p)
  | stream {p : PendingStream} (h : Names b p.key p.path) : Sound plan w₀ b (.stream p)
  | write {p : PendingWrite} (h : Names b p.key p.path) : Sound plan w₀ b (.write p)
  | reinstall {key : Key} {file : ProjectedFile} (chain : List ℕ)
      (h : b.projection key = some file.path) : Sound plan w₀ b (.reinstall key file chain)

def Act.Backed (f : Facade) : Act → Prop
  | .note (.hold lba) => f.store.isPending lba = true
  | _ => True

inductive Facade.Quiet (f : Facade) : Facade → Prop where
  | same : f.Quiet f
  | counted (n : ℕ) : f.Quiet { f with projectionOperations := n }
  | wrote (lba : ℕ) (data : Sector) (faults : ℕ → SpillFaults) : f.Quiet (f.writeSector lba data faults)

theorem Facade.Quiet.bindings {f f' : Facade} (h : f.Quiet f') : f'.bindings = f.bindings := by
  cases h with
  | wrote lba data faults => exact f.writeSector_bindings lba data faults
  | _ => rfl

inductive Step (plan : Plan) (w₀ : World) : Trail → Trail → Prop where
  | quiet {t t' : Trail} (hq : t.world.facade.Quiet t'.world.facade) (hlog : t'.log = t.log) :
      Step plan w₀ t t'
  | act {t : Trail} {a : Act} (h : Sound plan w₀ t.world.bindings a)
      (hback : a.Backed t.world.facade) : Step plan w₀ t (t.act plan a)

abbrev Steps (plan : Plan) (w₀ : World) : Trail → Trail → Prop :=
  Relation.ReflTransGen (Step plan w₀)

variable {plan : Plan} {w₀ : World}

theorem steps_read {α : Type} (t : Trail) (r : Reading α) : Steps plan w₀ t (t.read r).2 :=
  .single (.quiet .same rfl)

theorem steps_act {t : Trail} {a : Act} (h : Sound plan w₀ t.world.bindings a)
    (hback : a.Backed t.world.facade) : Steps plan w₀ t (t.act plan a) := .single (.act h hback)

theorem steps_note (t : Trail) (n : Note) (hback : (Act.note n).Backed t.world.facade) :
    Steps plan w₀ t (t.note plan n) := steps_act (.note n) hback

theorem note_world_bindings (t : Trail) (n : Note) :
    (t.note plan n).world.bindings = t.world.bindings := Facade.note_bindings _ n

/-- An act leaves the bindings as they were, or does to them what it says. -/
theorem act_bindings {P : Bindings → Prop} {t : Trail} {a : Act} (hstay : P t.world.bindings)
    (happly : P (t.world.bindings.apply a)) : P (t.act plan a).world.bindings := by
  rcases exec_bindings plan t.world a with he | he
  · rw [show (t.act plan a).world.bindings = _ from he]
    exact hstay
  · rw [show (t.act plan a).world.bindings = _ from he]
    exact happly

/-- Acts that stay sound whatever the ones before them did. -/
theorem steps_acts {P : Bindings → List Act → Prop}
    (hsound : ∀ b a rest, P b (a :: rest) → Sound plan w₀ b a)
    (hback : ∀ b a rest f, P b (a :: rest) → a.Backed f)
    (hstay : ∀ b a rest, P b (a :: rest) → P b rest)
    (happly : ∀ b a rest, P b (a :: rest) → P (b.apply a) rest)
    (l : List Act) (t : Trail) (h : P t.world.bindings l) :
    Steps plan w₀ t (t.acts plan l) ∧ P (t.acts plan l).world.bindings [] := by
  induction l generalizing t with
  | nil => exact ⟨.refl, h⟩
  | cons a rest ih =>
    have hnext : P (t.act plan a).world.bindings rest :=
      act_bindings (P := fun b => P b rest) (hstay _ a rest h) (happly _ a rest h)
    obtain ⟨hsteps, hend⟩ := ih (t.act plan a) hnext
    exact ⟨(steps_act (hsound _ a rest h) (hback _ a rest _ h)).trans hsteps, hend⟩

end IzarraVM.Katea
