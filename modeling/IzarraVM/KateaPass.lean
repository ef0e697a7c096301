import IzarraVM.KateaGone

/-! The third phase and the whole pass, as runs of sound acts. -/
namespace IzarraVM.Katea
open Reading

variable {plan : Plan} {w₀ : World} {b b' : Bindings} {site : Site} {a : Act}

structure FilePlanned (b : Bindings) (site : Site) (key : Key) (path : PathBuf) : Prop where
  dir : key.1 = site.dirCluster
  safe : nameIsHostSafe key.2 = true
  path : path = (b.entry key).getD (childPath site.hostDir key.2)

def Planned (b : Bindings) (site : Site) : Act → Prop
  | .note n => ∀ f, (Act.note n).Backed f
  | .mkdir p => p.parent = site.dirCluster ∧ p.path = childPath site.hostDir p.name ∧
      nameIsHostSafe p.name = true
  | .stream p => FilePlanned b site p.key p.path
  | .write p => FilePlanned b site p.key p.path
  | _ => False

def Decision.Planned (b : Bindings) (site : Site) : Decision → Prop
  | .skip => True
  | .now n => ∀ f, (Act.note n).Backed f
  | .later a => IzarraVM.Katea.Planned b site a

theorem Planned.backed (h : Planned b site a) (f : Facade) : a.Backed f := by
  cases a with
  | note n => exact h f
  | _ => trivial

section Decide

variable {w : World} {pass : PassFacts} {name : Name83} {n : ℕ}

theorem filePlanned_boundPath (hsafe : nameIsHostSafe name = true) :
    FilePlanned w.bindings site (site.dirCluster, name) (boundPath w site name) :=
  ⟨rfl, hsafe, rfl⟩

theorem gatherFile_planned (hsafe : nameIsHostSafe name = true) (chain : List ℕ)
    (state : FileState) (before : ℕ) :
    Always n (Decision.Planned w.bindings site)
      (gatherFile plan w site name chain state before) := by
  refine (always_true _).bind fun sectors _ => (always_true _).bind fun after _ => ?_
  dsimp only
  split_ifs
  · exact always_pure fun _ => trivial
  · exact always_pure fun _ => trivial
  · exact always_pure (filePlanned_boundPath hsafe)

theorem decideTouched_planned (hsafe : nameIsHostSafe name = true) (state : FileState)
    (chain : List ℕ) (repointed : Bool) (before : ℕ) :
    Always n (Decision.Planned w.bindings site)
      (decideTouched plan w pass site name state chain repointed before) := by
  unfold decideTouched
  dsimp only
  split_ifs
  · exact always_pure fun _ => trivial
  · exact always_pure fun _ => trivial
  · exact always_pure (filePlanned_boundPath hsafe)
  · exact gatherFile_planned hsafe chain state before

theorem decideFile_planned (hsafe : nameIsHostSafe name = true) (firstCluster size : ℕ) :
    Always n (Decision.Planned w.bindings site)
      (decideFile plan w pass site name firstCluster size) := by
  refine (always_true _).bind fun before _ => (always_true _).bind fun facts _ => ?_
  cases facts with
  | none => exact always_pure trivial
  | some facts =>
    dsimp only
    split_ifs
    · exact decideTouched_planned hsafe _ _ _ _
    · exact always_pure trivial

theorem decideEntry_planned (e : ParsedEntry) :
    Always n (Decision.Planned w.bindings site) (decideEntry plan w pass site e) := by
  unfold decideEntry
  cases haction : classify e w.facade.systemNames with
  | skip => exact always_pure trivial
  | makeDir name firstCluster =>
    have hsafe := (classify_name (congrArg EntryAction.name? haction)).2
    dsimp only
    split_ifs
    · exact always_pure trivial
    · exact always_pure ⟨rfl, rfl, hsafe⟩
  | makeFile name firstCluster size =>
    have hsafe := (classify_name (congrArg EntryAction.name? haction)).2
    exact decideFile_planned hsafe firstCluster size

end Decide

/-- The entries of a directory are decided without binding anything. -/
theorem decideAll_spec (pass : PassFacts) (entries : List ParsedEntry) (t : Trail) :
    Steps plan w₀ t (decideAll plan pass site entries t).2 ∧
      (decideAll plan pass site entries t).2.world.bindings = t.world.bindings ∧
      ∀ a ∈ (decideAll plan pass site entries t).1, Planned t.world.bindings site a := by
  induction entries generalizing t with
  | nil => exact ⟨.refl, rfl, fun a ha => by cases ha⟩
  | cons e rest ih =>
    have hread : Steps plan w₀ t (t.read (decideEntry plan t.world pass site e)).2 := steps_read t _
    have hplanned : Decision.Planned t.world.bindings site
        (t.read (decideEntry plan t.world pass site e)).1 :=
      decideEntry_planned e t.world.tally (Nat.le_refl _)
    unfold decideAll
    dsimp only
    split
    · obtain ⟨hsteps, hb, hall⟩ := ih (t.read (decideEntry plan t.world pass site e)).2
      exact ⟨hread.trans hsteps, hb, hall⟩
    · next n hdecision =>
      rw [hdecision] at hplanned
      have hnote : ((t.read (decideEntry plan t.world pass site e)).2.note plan n).world.bindings =
          t.world.bindings := note_world_bindings _ n
      obtain ⟨hsteps, hb, hall⟩ := ih ((t.read (decideEntry plan t.world pass site e)).2.note plan n)
      rw [hnote] at hb hall
      exact ⟨(hread.trans (steps_note _ n (hplanned _))).trans hsteps, hb, hall⟩
    · next a hdecision =>
      obtain ⟨hsteps, hb, hall⟩ := ih (t.read (decideEntry plan t.world pass site e)).2
      rw [hdecision] at hplanned
      refine ⟨hread.trans hsteps, hb, ?_⟩
      rintro a' (_ | ⟨_, ha'⟩)
      · exact hplanned
      · exact hall a' ha'

structure Since (b b' : Bindings) (site : Site) : Prop where
  dir : b'.dir site.dirCluster = some site.hostDir
  entry : ∀ k : Key, k.1 = site.dirCluster → b'.entry k = b.entry k ∨
    b.entry k = none ∧ b'.entry k = some (childPath site.hostDir k.2)

section Since

variable (h : Since b b' site)
include h

theorem Since.names {key : Key} {path : PathBuf} (hp : FilePlanned b site key path) :
    Names b' key path := by
  have hdir : b'.dir key.1 = some site.hostDir := by rw [hp.dir]; exact h.dir
  rcases h.entry key hp.dir with he | ⟨hnone, he⟩
  · cases hb : b.entry key with
    | none =>
      refine .fresh (he.trans hb) hdir ?_ hp.safe
      rw [hp.path, hb, Option.getD_none]
    | some q =>
      refine .entry (he.trans ?_)
      rw [hp.path, hb, Option.getD_some]
  · refine .entry ?_
    rw [he, hp.path, hnone, Option.getD_none]

theorem Since.sound (ha : Planned b site a) : Sound plan w₀ b' a := by
  cases a with
  | note n => exact .note n
  | mkdir p =>
    obtain ⟨hparent, hpath, hsafe⟩ := ha
    refine .mkdir ?_ hpath hsafe
    rw [hparent]
    exact h.dir
  | stream p => exact .stream (h.names ha)
  | write p => exact .write (h.names ha)
  | _ => exact ha.elim

theorem Since.bindFile {key : Key} {path : PathBuf}
    (hp : FilePlanned b site key path) : Since b (b'.bindFile key path) site where
  dir := h.dir
  entry k hk := by
    by_cases hkey : k = key
    · subst hkey
      simp only [Bindings.bindFile, Function.update_self, hp.path]
      cases hb : b.entry k with
      | none => exact Or.inr ⟨rfl, rfl⟩
      | some q => exact Or.inl rfl
    · simp only [Bindings.bindFile, Function.update_of_ne hkey]
      exact h.entry k hk

theorem Since.mkdir {p : PendingDir}
    (hpath : p.path = childPath site.hostDir p.name) : Since b (b'.apply (.mkdir p)) site where
  dir := by
    simp only [Bindings.apply, Bindings.orBind]
    split_ifs with hsome
    · exact h.dir
    · have hne : site.dirCluster ≠ p.firstCluster := by
        rintro heq
        rw [← heq, h.dir] at hsome
        exact hsome rfl
      rw [Function.update_of_ne hne]
      exact h.dir
  entry k hk := by
    simp only [Bindings.apply, Bindings.orBind]
    split_ifs with hsome
    · exact h.entry k hk
    · by_cases hkey : k = p.key
      · subst hkey
        rw [Function.update_self]
        have hnone : b'.entry p.key = none := by simpa using hsome
        rcases h.entry p.key hk with he | ⟨-, he⟩
        · exact Or.inr ⟨he.symm.trans hnone, congrArg some hpath⟩
        · rw [hnone] at he
          cases he
      · rw [Function.update_of_ne hkey]
        exact h.entry k hk

theorem Since.apply (ha : Planned b site a) :
    Since b (b'.apply a) site := by
  cases a with
  | note n => exact h
  | mkdir p => exact h.mkdir ha.2.1
  | stream p => exact h.bindFile ha
  | write p => exact h.bindFile ha
  | _ => exact ha.elim

end Since

variable (plan w₀) {t : Trail} (h : Since b t.world.bindings site)
include h

/-- A planned act is sound, and leaves the rest of the plan sound. -/
theorem Since.act (ha : Planned b site a) :
    Steps plan w₀ t (t.act plan a) ∧ Since b (t.act plan a).world.bindings site := by
  exact ⟨steps_act (h.sound ha) (ha.backed _), act_bindings (P := fun b' => Since b b' site) h (h.apply ha)⟩

/-- Planned acts, one after another. -/
theorem Since.acts (l : List Act) (hl : ∀ a ∈ l, Planned b site a) :
    Steps plan w₀ t (t.acts plan l) ∧ Since b (t.acts plan l).world.bindings site := by
  induction l generalizing t with
  | nil => exact ⟨.refl, h⟩
  | cons a rest ih =>
    obtain ⟨hact, hnext⟩ := h.act plan w₀ (hl a List.mem_cons_self)
    obtain ⟨hrest, hend⟩ := ih hnext fun a' ha' => hl a' (List.mem_cons_of_mem a ha')
    exact ⟨hact.trans hrest, hend⟩

theorem Since.makeDirs (seen : List ℕ) (l : List Act) (hl : ∀ a ∈ l, Planned b site a) :
    Steps plan w₀ t (makeDirs plan seen l t).2 ∧
      Since b (makeDirs plan seen l t).2.world.bindings site := by
  induction l generalizing t with
  | nil => exact ⟨.refl, h⟩
  | cons a rest ih =>
    have htail := fun a' ha' => hl a' (List.mem_cons_of_mem a ha')
    cases a with
    | mkdir p =>
      obtain ⟨hact, hnext⟩ := h.act plan w₀ (hl _ List.mem_cons_self)
      obtain ⟨hrest, hend⟩ := ih hnext htail
      exact ⟨hact.trans hrest, hend⟩
    | _ => exact ih h htail

theorem Since.note (n : Note) : Since b (t.note plan n).world.bindings site := by
  rw [note_world_bindings]
  exact h

theorem Since.streams (l : List PendingStream) (hl : ∀ p ∈ l, Planned b site (.stream p)) :
    Steps plan w₀ t (l.foldl (streamOne plan) t) ∧
      Since b (l.foldl (streamOne plan) t).world.bindings site := by
  induction l generalizing t with
  | nil => exact ⟨.refl, h⟩
  | cons p rest ih =>
    obtain ⟨hact, hsince⟩ := h.act plan w₀ (hl p List.mem_cons_self)
    have hone : Steps plan w₀ t (streamOne plan t p) ∧
        Since b (streamOne plan t p).world.bindings site := by
      unfold streamOne
      split_ifs
      · exact ⟨hact, hsince⟩
      · exact ⟨(hact.trans (steps_note _ .failed trivial)).trans (steps_note _ (.retry _ _) trivial), (hsince.note plan _).note plan _⟩
    obtain ⟨hrest, hend⟩ := ih hone.2 fun p' hp' => hl p' (List.mem_cons_of_mem p hp')
    exact ⟨hone.1.trans hrest, hend⟩

theorem Since.applyLater (seen : List ℕ) {later : List Act}
    (hl : ∀ a ∈ later, Planned b site a) : Steps plan w₀ t (applyLater plan seen later t).2 := by
  have hfilter (keep : Act → Bool) : ∀ a ∈ later.filter keep, Planned b site a :=
    fun a ha => hl a (List.mem_of_mem_filter ha)
  have hstreams : ∀ p ∈ streamsOf later, Planned b site (.stream p) := by
    intro p hp
    obtain ⟨a, ha, hap⟩ := List.mem_filterMap.mp hp
    cases a with
    | stream q => cases hap; exact hl _ ha
    | _ => cases hap
  obtain ⟨hnotes, h₁⟩ := h.acts plan w₀ _ (hfilter _)
  obtain ⟨hdirs, h₂⟩ := h₁.makeDirs plan w₀ seen later hl
  obtain ⟨hfiles, h₃⟩ := h₂.streams plan w₀ _ hstreams
  exact ((hnotes.trans hdirs).trans hfiles).trans (h₃.acts plan w₀ _ (hfilter _)).1

omit h
variable {plan w₀}

/-- The entries of a known directory are decided, and then what was put off is done. -/
theorem listing_steps (pass : PassFacts) (seen : List ℕ) (entries : List ParsedEntry) {t : Trail}
    (hdir : t.world.bindings.dir site.dirCluster = some site.hostDir) :
    Steps plan w₀ t (applyLater plan seen (decideAll plan pass site entries t).1
      (decideAll plan pass site entries t).2).2 := by
  obtain ⟨hdecide, hb, hall⟩ := decideAll_spec pass entries t
  refine hdecide.trans (Since.applyLater plan w₀ ?_ seen hall)
  rw [hb]
  exact ⟨hdir, fun k _ => Or.inl rfl⟩

theorem visitDir_steps (pass : PassFacts) (seen : List ℕ) (d : ℕ) (t : Trail) :
    Steps plan w₀ t (visitDir plan pass seen d t).2 := by
  unfold visitDir
  split
  · exact .refl
  · next hostDir hdir =>
    have hread : Steps plan w₀ t (t.read (directoryImage plan t.world d)).2 := steps_read t _
    dsimp only
    split
    · exact hread
    · next facts raw _ =>
      have hregister := hread.trans
        (steps_note (t.read (directoryImage plan t.world d)).2 (.register facts.chain d) trivial)
      split
      · exact hregister
      · next raw _ =>
        refine hregister.trans (listing_steps pass seen (parseDir raw) ?_)
        rw [note_world_bindings]
        exact hdir

theorem materialize_steps (pass : PassFacts) (fuel : ℕ) (work seen : List ℕ) (t : Trail) :
    Steps plan w₀ t (materialize plan pass fuel work seen t) := by
  induction fuel generalizing work seen t with
  | zero => exact .refl
  | succ fuel ih =>
    cases work with
    | nil => exact .refl
    | cons d work =>
      unfold materialize
      split_ifs
      · exact ih _ _ _
      · exact (visitDir_steps pass (d :: seen) d t).trans (ih _ _ _)

theorem foldl_unblock {α : Type} (g : Facade → α) (hg : ∀ f k, g (Facade.unblock f k) = g f)
    (keys : List Key) (f : Facade) : g (keys.foldl Facade.unblock f) = g f := by
  induction keys generalizing f with
  | nil => rfl
  | cons k rest ih => rw [List.foldl_cons, ih, hg]

/-- The sweep of stale blocks, after reads that only counted. -/
theorem unmoved_sweep (live : List Key) (w₀ : World) {tally : Tally}
    (hreads : w₀.tally.reads ≤ tally.reads) :
    Unmoved w₀ { w₀ with tally, facade := w₀.facade.note (.sweep live) } where
  volume := foldl_unblock Facade.toKateaTreeVolume (fun _ _ => rfl) _ _
  mirrored := foldl_unblock Facade.mirrored (fun _ _ => rfl) _ _
  dirPaths := foldl_unblock Facade.dirPaths (fun _ _ => rfl) _ _
  host := rfl
  reads := hreads

theorem goneOk_nil : GoneOk plan w₀ [] ⟨[], [], []⟩ := ⟨⟨nofun, .nil⟩, nofun, nofun⟩

theorem reconcilePhases_steps (mode : ReconcileMode) (ambiguous : List Key) (t : Trail)
    {live : List Facade.LiveEntry} (hw : Unmoved w₀ t.world)
    (hb : t.world.bindings = w₀.bindings) (hlive : ∀ l, l ∈ live ↔ w₀.Live l)
    (hgather : RanClean w₀.tally.reads (gatherLive plan w₀)) :
    Steps plan w₀ t (reconcilePhases plan mode live ambiguous t) := by
  obtain ⟨hes, hnodup⟩ := mirroredEntries_spec hw
  obtain ⟨done, hgone⟩ := disappearances_ok hw hlive hgather (mirroredEntries plan t.world)
    goneOk_nil hes hnodup (fun _ _ => List.not_mem_nil) t.world.tally hw.reads
  have hread : Steps plan w₀ t (t.read
      (disappearances plan t.world live (mirroredEntries plan t.world) ⟨[], [], []⟩)).2 :=
    steps_read t _
  exact (hread.trans (gone_steps hgone _ hb)).trans (materialize_steps _ _ _ _ _)

/-- A whole pass: its deletes are justified by the disk it started from. -/
theorem reconcileMode_steps (mode : ReconcileMode) (t : Trail) :
    Steps plan t.world t (reconcileMode plan mode t) := by
  have hread₁ : Steps plan t.world t (t.read (gatherLive plan t.world).bracket).2 := steps_read t _
  unfold reconcileMode
  dsimp only
  split
  · exact hread₁
  · next found hfound =>
    obtain ⟨hlive, hgather⟩ := gatherLive_spec hfound
    split
    · exact hread₁.trans (steps_read _ _)
    · next ambiguous _ =>
      refine ((hread₁.trans (steps_read _ _)).trans (steps_note _ (.sweep _) trivial)).trans
        (reconcilePhases_steps mode ambiguous _ (unmoved_sweep _ t.world ?_) (note_world_bindings _ _) hlive
          hgather)
      exact (Reading.reads_le _ _).trans (Reading.reads_le _ _)

end IzarraVM.Katea
