import IzarraVM.KateaSeeds

/-! No session of a guest makes the facade touch a host path outside the mounted folder. -/
namespace IzarraVM.Katea
open HostPath

variable {plan : Plan} {root : PathBuf} {b : Bindings} {path : PathBuf}

section AllPaths

variable {K : Type} [DecidableEq K] {P : PathBuf → Prop} {m : K → Option PathBuf}

def AllPaths (P : PathBuf → Prop) (m : K → Option PathBuf) : Prop := ∀ k path, m k = some path → P path

theorem AllPaths.insert (h : AllPaths P m) (k : K) (hpath : P path) :
    AllPaths P (Function.update m k (some path)) := by
  intro k' path' hk'
  by_cases heq : k' = k
  · subst heq
    rw [Function.update_self] at hk'
    rw [← Option.some.inj hk']
    exact hpath
  · rw [Function.update_of_ne heq] at hk'
    exact h k' path' hk'

theorem AllPaths.erase (h : AllPaths P m) (k : K) : AllPaths P (Function.update m k none) := by
  intro k' path' hk'
  by_cases heq : k' = k
  · subst heq
    rw [Function.update_self] at hk'
    cases hk'
  · rw [Function.update_of_ne heq] at hk'
    exact h k' path' hk'

theorem AllPaths.orBind (h : AllPaths P m) (k : K) (hpath : P path) :
    AllPaths P (Bindings.orBind m k path) := by
  unfold Bindings.orBind
  split_ifs
  · exact h
  · exact h.insert k hpath

end AllPaths

structure Contained (root : PathBuf) (b : Bindings) : Prop where
  entry : AllPaths (Inside root) b.entry
  projection : AllPaths (Inside root) b.projection
  dir : AllPaths (Within root) b.dir

def Act.newName (b : Bindings) : Act → Option Name83
  | .rename r => some r.newKey.2
  | .mkdir p => some p.name
  | .stream p => if (b.entry p.key).isNone then some p.key.2 else none
  | .write p => if (b.entry p.key).isNone then some p.key.2 else none
  | _ => none

def NameDecodes (w : World) (a : Act) : Prop :=
  ∀ name, a.newName w.bindings = some name → hostChildName name ≠ []

instance (w : World) (a : Act) : Decidable (NameDecodes w a) :=
  decidable_of_iff ((a.newName w.bindings).all fun name => decide (hostChildName name ≠ []))
    (by simp [NameDecodes, Option.all_eq_true])

theorem childPath_inside {hostDir : PathBuf} {name : Name83} (hdir : Within root hostDir)
    (hsafe : nameIsHostSafe name = true) (hne : hostChildName name ≠ []) :
    Inside root (childPath hostDir name) :=
  hdir.inside_join (hostChildName_plain hsafe hne)

theorem Names.inside {key : Key} (h : Names b key path) (hb : Contained root b)
    (hne : b.entry key = none → hostChildName key.2 ≠ []) : Inside root path := by
  cases h with
  | entry h => exact hb.entry key path h
  | projection h => exact hb.projection key path h
  | fresh h hdir hpath hsafe =>
    rw [hpath]
    exact childPath_inside (hb.dir _ _ hdir) hsafe (hne h)

/-- The temporary file of a write is in the directory of its target. -/
theorem tempPath_inside {tmp : PathBuf} (h : Inside root path) (htmp : tempPath path = some tmp) :
    Inside root tmp := by
  obtain ⟨d, c, hd, hc, rfl⟩ := h.last
  have hplain : Plain (c ++ ['.', 'k', 'a', 't', 't', 'm', 'p']) := by
    refine ⟨by simp, ?_, ?_, fun x hx => ?_⟩
    · intro hdot
      simpa using congrArg List.length hdot
    · intro hdots
      simpa using congrArg List.length hdots
    · rcases List.mem_append.mp hx with hx | hx
      · exact hc.chars x hx
      · have hsuffix : ∀ x ∈ ['.', 'k', 'a', 't', 't', 'm', 'p'],
            x ≠ '/' ∧ x ≠ '\\' ∧ x ≠ ':' ∧ x ≠ '\x00' := by simp
        exact hsuffix x hx
  rw [tempPath, fileName_append d hc, Option.map_some, withFileName_append d hc hplain] at htmp
  rw [← Option.some.inj htmp]
  exact hd.inside_append hplain

theorem Contained.bindFile (h : Contained root b) (key : Key) (hpath : Inside root path) :
    Contained root (b.bindFile key path) :=
  ⟨h.entry.insert key hpath, h.projection.insert key hpath, h.dir⟩

/-- A sound act stays in the folder and leaves every binding there. -/
theorem contained_keeps (plan : Plan) (root : PathBuf) :
    Keeps plan (Contained root) NameDecodes fun _ a => ∀ p ∈ a.hostPaths, Inside root p := by
  intro w₀ w a h₀ h hsound hname
  cases hsound with
  | note n => exact ⟨by simp [Act.hostPaths], h⟩
  | @rename r hostDir hold _ hdir hpath hsafe =>
    have hnew : Inside root r.newPath := by
      rw [hpath]
      exact childPath_inside (h₀.dir _ _ hdir) hsafe (hname _ rfl)
    refine ⟨?_, h.entry.erase _ |>.insert _ hnew, ?_, ?_⟩
    · simpa [Act.hostPaths] using ⟨h.entry _ _ hold, hnew⟩
    · simp only [Bindings.apply]
      split_ifs
      · exact (h.projection.erase _).insert _ hnew
      · exact h.projection
    · simp only [Bindings.apply]
      split_ifs
      · exact h.dir.insert _ hnew.within
      · exact h.dir
  | @delete d hbound _ =>
    refine ⟨?_, h.entry.erase _, h.projection.erase _, ?_⟩
    · simpa [Act.hostPaths] using h.entry _ _ hbound
    · simp only [Bindings.apply]
      split_ifs
      · exact h.dir.erase _
      · exact h.dir
  | @mkdir p hostDir hdir hpath hsafe =>
    have hnew : Inside root p.path := by
      rw [hpath]
      exact childPath_inside (h.dir _ _ hdir) hsafe (hname _ rfl)
    refine ⟨?_, h.entry.orBind _ hnew, h.projection, h.dir.orBind _ hnew.within⟩
    simpa [Act.hostPaths] using hnew
  | @stream p hnames =>
    have hin := hnames.inside h fun hnone => hname _ (by simp [Act.newName, hnone])
    refine ⟨?_, h.bindFile _ hin⟩
    simpa [Act.hostPaths] using hin
  | @write p hnames =>
    have hin := hnames.inside h fun hnone => hname _ (by simp [Act.newName, hnone])
    refine ⟨?_, h.bindFile _ hin⟩
    intro q hq
    rcases List.mem_cons.mp hq with rfl | hq
    · exact hin
    · exact tempPath_inside hin (Option.mem_toList.mp hq)
  | reinstall chain hproj =>
    exact ⟨by simp [Act.hostPaths], h.entry, h.projection.insert _ (h.projection _ _ hproj), h.dir⟩

def PlainNames (names : List Component) : Prop := ∀ n ∈ names, Plain n

def DirInside (root : PathBuf) (d : TreeDir) : Prop :=
  Within root d.hostPath ∧ ∀ p ∈ childPaths d, Inside root p

theorem dirInside_bare (root : PathBuf) (d : TreeDir) : DirInside root d.bare ↔ DirInside root d := by
  unfold DirInside
  rw [childPaths_bare, hostPath_bare]

theorem Ruled.childPaths_inside {d : TreeDir} (h : Ruled PlainNames d)
    (hd : Within root d.hostPath) : ∀ p ∈ childPaths d, Inside root p := by
  obtain ⟨names, hplain, hperm⟩ := h.names
  intro p hp
  obtain ⟨n, hn, rfl⟩ := List.mem_map.mp (hperm.mem_iff.mp hp)
  exact hd.inside_append (hplain n hn)

theorem dirInside_of_ruled (d : TreeDir) (isRoot : Bool) (hd : Within root d.hostPath)
    (h : ∀ p ∈ walk isRoot d, Ruled PlainNames p.2) : ∀ p ∈ walk isRoot d, DirInside root p.2 := by
  induction d using TreeDir.induct generalizing isRoot with
  | dir d ih =>
    rw [walk_eq] at h
    have hchildren := (h _ List.mem_cons_self).childPaths_inside hd
    intro p hp
    rw [walk_eq] at hp
    rcases List.mem_cons.mp hp with rfl | hp
    · exact ⟨hd, hchildren⟩
    · obtain ⟨s, hs, hp⟩ := List.mem_flatMap.mp hp
      have hsub : Within root s.dir.hostPath :=
        (hchildren _ (List.mem_append_right _ (List.mem_map_of_mem hs))).within
      refine ih s hs false hsub (fun q hq => h q (List.mem_cons_of_mem _ ?_)) p hp
      exact List.mem_flatMap.mpr ⟨s, hs, hq⟩

/-- The bindings of a mount lie in the folder. -/
theorem Mount.contained {m : Mount} {fuel : ℕ} {f : Facade} (hmount : m.mount fuel = some (.ok f))
    (hnames : m.Listed PlainNames) : Contained m.root f.bindings := by
  obtain ⟨tree, geo, hbare, rfl⟩ := mount_ok hmount
  have hruled := buildTree_ruled (fun l l' hsub hl' n hn => hl' n (hsub.subset hn)) hnames
  have hinside : ∀ p ∈ walk true tree, DirInside m.root p.2 :=
    forall_walk_of_bare (dirInside_bare m.root) hbare.symm
      (dirInside_of_ruled _ true (Within.refl _) hruled)
  have hseed {e : Key × MirrorEntry} (he : e ∈ seedMirrored tree) : Inside m.root e.2.hostPath := by
    obtain ⟨p, hp, hpath⟩ := mem_childPaths_of_seed he
    exact (hinside p hp).2 _ hpath
  refine ⟨fun key path h => ?_, fun key path h => ?_, fun d path h => ?_⟩
  · obtain ⟨e, he, -, rfl⟩ := new_entry h
    exact hseed he
  · obtain ⟨e, he, -, rfl⟩ := new_projection h
    exact hseed he
  · obtain ⟨p, hp, rfl⟩ := new_dir h
    exact (hinside p hp).1

/-- Every host path of every session on a mounted folder lies below the folder, unless
a name of the guest decodes to nothing. -/
theorem session_hostPaths_inside {m : Mount} {fuel : ℕ} {f : Facade} (plan : Plan) (host : Host)
    (events : List Event) (hmount : m.mount fuel = some (.ok f)) (hnames : m.Listed PlainNames)
    (hdecode : ∀ x ∈ (session plan (start f host) events).log, NameDecodes x.1 x.2) :
    ∀ x ∈ (session plan (start f host) events).log, ∀ p ∈ x.2.hostPaths, Inside m.root p := by
  have hstart : Guarded (Contained m.root) NameDecodes
      (fun _ a => ∀ p ∈ a.hostPaths, Inside m.root p) (start f host) :=
    fun _ => ⟨Mount.contained hmount hnames, fun _ hx => by cases hx⟩
  exact (session_guarded (contained_keeps plan m.root) events hstart hdecode).2

theorem emptySession_inside :
    (∀ x ∈ (emptySession [.writeRoot [(shortName [0x41], 0)], .flush]).log, NameDecodes x.1 x.2) ∧
      ∀ x ∈ (emptySession [.writeRoot [(shortName [0x41], 0)], .flush]).log,
        ∀ p ∈ x.2.hostPaths, Inside [['m']] p := by
  have hdecode : ∀ x ∈ (emptySession [.writeRoot [(shortName [0x41], 0)], .flush]).log,
      NameDecodes x.1 x.2 := by decide +kernel
  exact ⟨hdecode, session_hostPaths_inside .calm emptyHost _ emptyFolder_mount
    ⟨by simp [PlainNames, Mount.rootNames, emptyFolder], trivial⟩ hdecode⟩

/-- A name of one no-break space decodes to nothing, and the flush writes a temporary
file beside the mounted folder. -/
theorem emptySession_outside : emptyFolder.mount 8 = some (.ok emptyFacade) ∧
    emptyFolder.Listed PlainNames ∧
    ∃ x ∈ (session .calm (start emptyFacade emptyHost)
      [.writeRoot [(shortName [0xC2, 0xA0], 0)], .flush]).log,
      ∃ p ∈ x.2.hostPaths, ¬ Within emptyFolder.root p := by
  have hpaths : [['m', '.', 'k', 'a', 't', 't', 'm', 'p']] ∈
      (emptySession [.writeRoot [(shortName [0xC2, 0xA0], 0)], .flush]).log.flatMap
        fun x => x.2.hostPaths := by decide +kernel
  obtain ⟨x, hx, hp⟩ := List.mem_flatMap.mp hpaths
  refine ⟨emptyFolder_mount, ⟨by simp [PlainNames, Mount.rootNames, emptyFolder], trivial⟩,
    x, hx, _, hp, ?_⟩
  rintro ⟨below, -, heq⟩
  simp [emptyFolder] at heq

end IzarraVM.Katea
