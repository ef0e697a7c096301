import IzarraVM.KateaSeeds

/-! Aliasing: when two entries of the guest are bound to one host path. -/
namespace IzarraVM.Katea

variable {b : Bindings} {path : PathBuf}

def Bindings.Owns (b : Bindings) (k : Key) (path : PathBuf) : Prop :=
  b.entry k = some path ∨ b.projection k = some path

def Unaliased (b : Bindings) : Prop := ∀ k k' path, b.Owns k path → b.Owns k' path → k = k'

def OwnedBy (b : Bindings) (path : PathBuf) (owner : Key) : Prop := ∀ k, b.Owns k path → k = owner

def PathFree (w : World) : Act → Prop
  | .rename r => OwnedBy w.bindings r.newPath r.oldKey
  | .mkdir p => w.bindings.entry p.key = none → OwnedBy w.bindings p.path p.key
  | .stream p => w.bindings.entry p.key = none → OwnedBy w.bindings p.path p.key
  | .write p => w.bindings.entry p.key = none → OwnedBy w.bindings p.path p.key
  | _ => True

instance (b : Bindings) (k : Key) (path : PathBuf) : Decidable (b.Owns k path) :=
  inferInstanceAs (Decidable (b.entry k = some path ∨ b.projection k = some path))

/-- Only an entry that is mirrored or projected owns anything. -/
theorem World.owner_mem (w : World) {k : Key} (h : w.bindings.Owns k path) :
    k ∈ w.facade.mirrored.keys ++ w.facade.projectedFiles.keys := by
  rcases h with h | h
  · obtain ⟨m, hm, -⟩ := Option.map_eq_some_iff.mp h
    exact List.mem_append_left _ (AList.mem_keys.mp (AList.lookup_isSome.mp (by simp [hm])))
  · obtain ⟨m, hm, -⟩ := Option.map_eq_some_iff.mp h
    exact List.mem_append_right _ (AList.mem_keys.mp (AList.lookup_isSome.mp (by simp [hm])))

instance (w : World) (path : PathBuf) (owner : Key) : Decidable (OwnedBy w.bindings path owner) :=
  decidable_of_iff (∀ k ∈ w.facade.mirrored.keys ++ w.facade.projectedFiles.keys,
    w.bindings.Owns k path → k = owner) ⟨fun h k hk => h k (w.owner_mem hk) hk, fun h k _ hk => h k hk⟩

instance (w : World) (a : Act) : Decidable (PathFree w a) := by
  cases a <;> unfold PathFree <;> infer_instance

namespace Unaliased

/-- What an act adds to the owners is one path for one entry, which nobody else has then. -/
theorem of_added {b' : Bindings} {key : Key} (h : Unaliased b)
    (hadded : ∀ k p, b'.Owns k p → b.Owns k p ∨ k = key ∧ p = path)
    (hfree : ∀ k, b'.Owns k path → k = key) : Unaliased b' := by
  intro k k' p hk hk'
  rcases hadded k p hk with hold | ⟨rfl, rfl⟩
  · rcases hadded k' p hk' with hold' | ⟨rfl, rfl⟩
    · exact h k k' p hold hold'
    · exact hfree k hk
  · exact (hfree k' hk').symm

/-- An act that only takes paths away. -/
theorem of_subset {b' : Bindings} (h : Unaliased b) (hsub : ∀ k p, b'.Owns k p → b.Owns k p) :
    Unaliased b' := fun k k' p hk hk' => h k k' p (hsub k p hk) (hsub k' p hk')

theorem owns_bindFile {key k : Key} {p : PathBuf} (h : (b.bindFile key path).Owns k p) :
    k ≠ key ∧ b.Owns k p ∨ k = key ∧ p = path := by
  by_cases hk : k = key
  · subst hk
    refine Or.inr ⟨rfl, ?_⟩
    simpa [Bindings.Owns, Bindings.bindFile, eq_comm] using h
  · refine Or.inl ⟨hk, ?_⟩
    simpa [Bindings.Owns, Bindings.bindFile, Function.update_of_ne hk] using h

variable (h : Unaliased b)
include h

theorem bindFile {key : Key} (hpath : OwnedBy b path key) : Unaliased (b.bindFile key path) := by
  refine h.of_added (fun k p hk => (owns_bindFile hk).imp_left And.right) fun k hk => ?_
  rcases owns_bindFile hk with ⟨-, hold⟩ | ⟨heq, -⟩
  · exact hpath k hold
  · exact heq

/-- A file act binds its key to a path of its own, if a fresh one is free. -/
theorem ownedBy_of_names {key : Key} (hnames : Names b key path)
    (hfree : b.entry key = none → OwnedBy b path key) : OwnedBy b path key := by
  cases hnames with
  | entry hkey => exact fun k hk => h k key path hk (Or.inl hkey)
  | projection hkey => exact fun k hk => h k key path hk (Or.inr hkey)
  | fresh hnone _ _ _ => exact hfree hnone

omit h in
theorem owns_rename {r : PendingRename} {k : Key} {p : PathBuf}
    (h : (b.apply (.rename r)).Owns k p) :
    k ≠ r.oldKey ∧ b.Owns k p ∨ k = r.newKey ∧ p = r.newPath := by
  rcases h with hentry | hproj
  · simp only [Bindings.apply, Function.update_apply] at hentry
    split_ifs at hentry with hnew hold
    · exact Or.inr ⟨hnew, (Option.some.inj hentry).symm⟩
    · exact Or.inl ⟨hold, Or.inl hentry⟩
  · simp only [Bindings.apply] at hproj
    split_ifs at hproj with hmoved
    · simp only [Function.update_apply] at hproj
      split_ifs at hproj with hnew hold
      · exact Or.inr ⟨hnew, (Option.some.inj hproj).symm⟩
      · exact Or.inl ⟨hold, Or.inr hproj⟩
    · refine Or.inl ⟨?_, Or.inr hproj⟩
      rintro rfl
      exact hmoved (by simp [hproj])

theorem rename {r : PendingRename} (hpath : OwnedBy b r.newPath r.oldKey) :
    Unaliased (b.apply (.rename r)) := by
  refine h.of_added (fun k p hk => (owns_rename hk).imp_left And.right) fun k hk => ?_
  rcases owns_rename hk with ⟨hkold, howns⟩ | ⟨heq, -⟩
  · exact absurd (hpath k howns) hkold
  · exact heq

theorem delete (d : PendingDelete) : Unaliased (b.apply (.delete d)) := by
  refine h.of_subset fun k p hk => ?_
  simp only [Bindings.Owns, Bindings.apply, Function.update_apply] at hk
  split_ifs at hk with heq
  · rcases hk with hk | hk <;> cases hk
  · exact hk

theorem mkdir {p : PendingDir}
    (hfree : b.entry p.key = none → OwnedBy b p.path p.key) : Unaliased (b.apply (.mkdir p)) := by
  cases hkey : b.entry p.key with
  | some q =>
    refine h.of_subset fun k p' hk => ?_
    simpa [Bindings.Owns, Bindings.apply, Bindings.orBind, hkey] using hk
  | none =>
    have howns {k : Key} {q : PathBuf} (hk : (b.apply (.mkdir p)).Owns k q) :
        b.Owns k q ∨ k = p.key ∧ q = p.path := by
      simp only [Bindings.Owns, Bindings.apply, Bindings.orBind, hkey, Option.isSome_none,
        Bool.false_eq_true, if_false, Function.update_apply] at hk
      split_ifs at hk with heq
      · rcases hk with hk | hk
        · exact Or.inr ⟨heq, (Option.some.inj hk).symm⟩
        · exact Or.inl (Or.inr hk)
      · exact Or.inl hk
    refine h.of_added (fun k q => howns) fun k hk => ?_
    rcases howns hk with hold | ⟨heq, -⟩
    · exact hfree hkey k hold
    · exact heq

theorem reinstall {key : Key} {file : ProjectedFile} (chain : List ℕ)
    (hproj : b.projection key = some file.path) : Unaliased (b.apply (.reinstall key file chain)) := by
  refine h.of_subset fun k p hk => ?_
  rcases hk with hk | hk
  · exact Or.inl hk
  · simp only [Bindings.apply, Function.update_apply] at hk
    split_ifs at hk with heq
    · subst heq
      exact Or.inr (hproj.trans hk)
    · exact Or.inr hk

end Unaliased

/-- A sound act whose new path is free leaves no two entries on one path. -/
theorem unaliased_keeps (plan : Plan) :
    Keeps plan Unaliased PathFree fun w _ => Unaliased w.bindings := by
  intro w₀ w a _ h hsound hfree
  refine ⟨h, ?_⟩
  cases hsound with
  | note n => exact h
  | rename _ _ _ _ _ => exact h.rename hfree
  | delete _ _ => exact h.delete _
  | mkdir _ _ _ => exact h.mkdir hfree
  | stream hnames => exact h.bindFile (h.ownedBy_of_names hnames hfree)
  | write hnames => exact h.bindFile (h.ownedBy_of_names hnames hfree)
  | reinstall chain hproj => exact h.reinstall chain hproj

section Mounted

variable {root d : TreeDir} {isRoot : Bool}

def treePaths (isRoot : Bool) (d : TreeDir) : List PathBuf :=
  (walk isRoot d).flatMap fun p => childPaths p.2

theorem treePaths_eq (isRoot : Bool) (d : TreeDir) :
    treePaths isRoot d = childPaths d ++ d.subdirs.flatMap fun s => treePaths false s.dir := by
  rw [treePaths, walk_eq, List.flatMap_cons, List.flatMap_assoc]
  rfl

theorem treePaths_bare (isRoot : Bool) (d : TreeDir) :
    treePaths isRoot d.bare = treePaths isRoot d := by
  rw [treePaths, walk_bare, List.flatMap_map, treePaths]
  exact List.flatMap_congr fun p _ => childPaths_bare p.2

theorem Ruled.childPath_eq {Q : List Component → Prop} (h : Ruled Q d) {p : PathBuf}
    (hp : p ∈ childPaths d) : ∃ n, p = d.hostPath ++ [n] := by
  obtain ⟨names, -, hperm⟩ := h.names
  obtain ⟨n, -, rfl⟩ := List.mem_map.mp (hperm.mem_iff.mp hp)
  exact ⟨n, rfl⟩

/-- Everything in a tree is below the path of its root. -/
theorem treePaths_below (d : TreeDir) (isRoot : Bool) {Q : List Component → Prop}
    (h : ∀ p ∈ walk isRoot d, Ruled Q p.2) {p : PathBuf} (hp : p ∈ treePaths isRoot d) :
    ∃ n rest, p = d.hostPath ++ n :: rest := by
  induction d using TreeDir.induct generalizing isRoot p with
  | dir d ih =>
    rw [walk_eq] at h
    have hd := h _ List.mem_cons_self
    rw [treePaths_eq] at hp
    rcases List.mem_append.mp hp with hp | hp
    · obtain ⟨n, rfl⟩ := hd.childPath_eq hp
      exact ⟨n, [], rfl⟩
    · obtain ⟨s, hs, hp⟩ := List.mem_flatMap.mp hp
      obtain ⟨n, rest, rfl⟩ := ih s hs false (fun q hq => h q (List.mem_cons_of_mem _
        (List.mem_flatMap.mpr ⟨s, hs, hq⟩))) hp
      obtain ⟨n', hn'⟩ := hd.childPath_eq (List.mem_append_right _ (List.mem_map_of_mem hs))
      exact ⟨n', n :: rest, by rw [hn', List.append_assoc, List.singleton_append]⟩

/-- Distinct names in every directory make distinct paths in the whole tree. -/
theorem treePaths_nodup (d : TreeDir) (isRoot : Bool)
    (h : ∀ p ∈ walk isRoot d, Ruled List.Nodup p.2) : (treePaths isRoot d).Nodup := by
  induction d using TreeDir.induct generalizing isRoot with
  | dir d ih =>
    rw [walk_eq] at h
    have hd := h _ List.mem_cons_self
    have hsub {s : TreeSubdir} (hs : s ∈ d.subdirs) : ∀ p ∈ walk false s.dir, Ruled List.Nodup p.2 :=
      fun q hq => h q (List.mem_cons_of_mem _ (List.mem_flatMap.mpr ⟨s, hs, hq⟩))
    have hpath {s : TreeSubdir} (hs : s ∈ d.subdirs) : ∃ n, s.dir.hostPath = d.hostPath ++ [n] :=
      hd.childPath_eq (List.mem_append_right _ (List.mem_map_of_mem hs))
    have hchildren : (childPaths d).Nodup := by
      obtain ⟨names, hnodup, hperm⟩ := hd.names
      refine hperm.nodup_iff.mpr (hnodup.map fun n n' heq => ?_)
      simpa using heq
    rw [treePaths_eq]
    refine List.nodup_append'.mpr ⟨hchildren, List.nodup_flatMap.mpr ⟨?_, ?_⟩, ?_⟩
    · exact fun s hs => ih s hs false (hsub hs)
    · -- two subdirectories differ in the component right below this directory
      have hdirs : (d.subdirs.map fun s => s.dir.hostPath).Nodup :=
        (List.nodup_append'.mp hchildren).2.1
      refine (List.pairwise_map.mp hdirs).imp_of_mem fun {s s'} hs hs' hne p hp hp' => hne ?_
      obtain ⟨n, rest, rfl⟩ := treePaths_below s.dir false (hsub hs) hp
      obtain ⟨n', rest', heq⟩ := treePaths_below s'.dir false (hsub hs') hp'
      obtain ⟨a, ha⟩ := hpath hs
      obtain ⟨a', ha'⟩ := hpath hs'
      rw [ha, ha'] at heq ⊢
      have hlen : (d.hostPath ++ [a]).length = (d.hostPath ++ [a']).length := by simp
      exact (List.append_inj heq hlen).1
    · -- what a subdirectory holds is deeper than what the directory itself holds
      intro p hp hp'
      obtain ⟨n, rfl⟩ := hd.childPath_eq hp
      obtain ⟨s, hs, hp'⟩ := List.mem_flatMap.mp hp'
      obtain ⟨n', rest, heq⟩ := treePaths_below s.dir false (hsub hs) hp'
      obtain ⟨a, ha⟩ := hpath hs
      rw [ha] at heq
      have := congrArg List.length heq
      simp at this

/-- The bindings of a mount are apart when the names of every listing are. -/
theorem Mount.unaliased {m : Mount} {fuel : ℕ} {f : Facade} (hmount : m.mount fuel = some (.ok f))
    (hnames : m.Listed List.Nodup) : Unaliased f.bindings := by
  obtain ⟨tree, geo, hbare, rfl⟩ := mount_ok hmount
  have hruled := buildTree_ruled (fun l l' ⟨_, hperm, hsub⟩ hl' =>
    hperm.nodup_iff.mp (hl'.sublist hsub)) hnames
  have hpaths : ((seedMirrored tree).map fun e => e.2.hostPath).Nodup := by
    have heq : (seedMirrored tree).map (fun e => e.2.hostPath) = treePaths true tree := by
      rw [seedMirrored, List.map_flatMap, treePaths]
      exact List.flatMap_congr fun p _ => mirrorsOf_paths p.2
    rw [heq, ← treePaths_bare, hbare, treePaths_bare]
    exact treePaths_nodup _ true hruled
  intro k k' path hk hk'
  have hseed {k : Key} (hk : (Facade.new m.mbr m.vbr tree geo m.systemFiles).bindings.Owns k path) :
      ∃ e ∈ seedMirrored tree, e.1 = k ∧ e.2.hostPath = path := hk.elim new_entry new_projection
  obtain ⟨e, he, rfl, hpath⟩ := hseed hk
  obtain ⟨e', he', rfl, hpath'⟩ := hseed hk'
  exact congrArg Prod.fst (List.inj_on_of_nodup_map hpaths he he' (hpath.trans hpath'.symm))

end Mounted

/-- No two entries are ever bound to one host path, in any session on a folder with
distinct names in which every path that is newly bound is free at that moment. -/
theorem session_unaliased {m : Mount} {fuel : ℕ} {f : Facade} (plan : Plan) (host : Host)
    (events : List Event) (hmount : m.mount fuel = some (.ok f)) (hnames : m.Listed List.Nodup)
    (hfree : ∀ x ∈ (session plan (start f host) events).log, PathFree x.1 x.2) :
    Unaliased (session plan (start f host) events).world.bindings ∧
      ∀ x ∈ (session plan (start f host) events).log, Unaliased x.1.bindings := by
  have hstart : Guarded Unaliased PathFree (fun w _ => Unaliased w.bindings) (start f host) :=
    fun _ => ⟨Mount.unaliased hmount hnames, fun _ hx => by cases hx⟩
  exact session_guarded (unaliased_keeps plan) events hstart hfree

theorem emptySession_unaliased :
    (∀ x ∈ (emptySession [.writeRoot [(shortName [0x41], 0), (shortName [0x42], 0)], .flush]).log,
      PathFree x.1 x.2) ∧
    Unaliased
      (emptySession [.writeRoot [(shortName [0x41], 0), (shortName [0x42], 0)], .flush]).world.bindings := by
  have hfree : ∀ x ∈ (emptySession
      [.writeRoot [(shortName [0x41], 0), (shortName [0x42], 0)], .flush]).log,
      PathFree x.1 x.2 := by decide +kernel
  exact ⟨hfree, (session_unaliased .calm emptyHost _ emptyFolder_mount
    ⟨List.nodup_nil, trivial⟩ hfree).1⟩

theorem World.entry_of_mem {w : World} {k : Key} {m : MirrorEntry}
    (h : ⟨k, m⟩ ∈ w.facade.mirrored.entries) : w.bindings.entry k = some m.hostPath := by
  have hlookup : w.facade.mirrored.lookup k = some m := AList.mem_lookup_iff.mpr h
  simp only [World.bindings, Facade.bindings, hlookup, Option.map_some]

/-- Two names that differ in a letter outside ASCII only are bound to one host file. -/
theorem emptySession_aliased : emptyFolder.mount 8 = some (.ok emptyFacade) ∧
    emptyFolder.Listed List.Nodup ∧
    ∃ k k' path, k ≠ k' ∧
      (session .calm (start emptyFacade emptyHost)
        [.writeRoot [(shortName [0x80], 0), (shortName [0x81], 0)], .flush]).world.bindings.entry k =
          some path ∧
      (session .calm (start emptyFacade emptyHost)
        [.writeRoot [(shortName [0x80], 0), (shortName [0x81], 0)], .flush]).world.bindings.entry k' =
          some path := by
  have hshared : ∃ e ∈ (emptySession
      [.writeRoot [(shortName [0x80], 0), (shortName [0x81], 0)], .flush]).world.facade.mirrored.entries,
      ∃ e' ∈ (emptySession
        [.writeRoot [(shortName [0x80], 0), (shortName [0x81], 0)], .flush]).world.facade.mirrored.entries,
        e.1 ≠ e'.1 ∧ e.2.hostPath = e'.2.hostPath := by decide +kernel
  obtain ⟨e, he, e', he', hne, hpath⟩ := hshared
  refine ⟨emptyFolder_mount, ⟨List.nodup_nil, trivial⟩, e.1, e'.1, e.2.hostPath, hne,
    World.entry_of_mem he, ?_⟩
  rw [hpath]
  exact World.entry_of_mem he'

end IzarraVM.Katea
