import IzarraVM.KateaSteps

/-! The second phase: what renames and deletes are about. -/
namespace IzarraVM.Katea
open Reading Facade

variable {plan : Plan} {w₀ w : World}

theorem scanDirs_run (get : ℕ → Id (Option Sector)) (f : Facade) (host : HostFiles)
    (dirs : List ℕ) :
    (scanDirs get f host dirs).run = dirs.flatMap fun d => (scanDir get f host d).run := by
  have hmap : (dirs.mapM' (scanDir get f host)).run = dirs.map fun d => (scanDir get f host d).run := by
    induction dirs with
    | nil => rfl
    | cons d rest ih => exact congrArg (List.cons _) ih
  change ((dirs.mapM' (scanDir get f host)).run).flatten = _
  rw [hmap, List.flatMap_def]

/-- A gathering without a failed read finds exactly what is live. -/
theorem gatherLive_spec {found : List (ℕ × ParsedEntry)}
    (h : ((gatherLive plan w).bracket.run w.tally).1 = some found) :
    (∀ l, l ∈ w.facade.liveEntries found ↔ w.Live l) ∧
      RanClean w.tally.reads (gatherLive plan w) := by
  have hgives : Gives (gatherLive plan w) (scanDirs w.facade.stored w.facade w.files
      (plan.shuffle ℕ (3*w.passes) w.facade.dirPaths.keys)) :=
    gives_scanDirs (fun lba => gives_overlayRead w.facade plan.readFault lba) _
  obtain ⟨hfound, hclean⟩ := hgives.bracket w.tally (Nat.le_refl _) found h
  refine ⟨fun l => ?_, hclean⟩
  have hkeys (d : ℕ) : d ∈ plan.shuffle ℕ (3*w.passes) w.facade.dirPaths.keys ↔
      d ∈ w.facade.dirPaths := (plan.shuffle_perm ℕ _ _).mem_iff.trans AList.mem_keys.symm
  have hrun : found = (scanDirs w.facade.stored w.facade w.files
      (plan.shuffle ℕ (3*w.passes) w.facade.dirPaths.keys)).run := hfound
  rw [hrun, scanDirs_run]
  simp only [liveEntries, List.mem_filterMap, List.mem_flatMap, hkeys, World.Live]
  constructor
  · rintro ⟨p, ⟨d, hd, hp⟩, hl⟩
    exact ⟨d, hd, p, hp, hl⟩
  · rintro ⟨d, hd, p, hp, hl⟩
    exact ⟨p, ⟨d, hd, hp⟩, hl⟩

theorem liveOf_safe {system : List Name83} {p : ℕ × ParsedEntry} {l : Facade.LiveEntry}
    (h : liveOf system p = some l) : nameIsHostSafe l.name = true := by
  have hname : (classify p.2 system).name? = some l.name := by
    unfold liveOf at h
    split at h
    all_goals cases h
    all_goals
      next heq =>
      rw [heq]
      rfl
  exact (classify_name hname).2

theorem Live.safe {l : Facade.LiveEntry} (h : w.Live l) : nameIsHostSafe l.name = true := by
  obtain ⟨d, -, p, -, hl⟩ := h
  exact liveOf_safe hl

structure Unmoved (w₀ w : World) : Prop where
  volume : w.facade.toKateaTreeVolume = w₀.facade.toKateaTreeVolume
  mirrored : w.facade.mirrored = w₀.facade.mirrored
  dirPaths : w.facade.dirPaths = w₀.facade.dirPaths
  host : w.host = w₀.host
  reads : w₀.tally.reads ≤ w.tally.reads

theorem Unmoved.fatEntry (h : Unmoved w₀ w) (plan : Plan) (c : ℕ) :
    Facade.fatEntry (w.overlay plan) w.facade w.files c =
      Facade.fatEntry (w₀.overlay plan) w₀.facade w₀.files c := by
  unfold Facade.fatEntry sectorAt fatLba World.overlay overlayRead World.files
  rw [h.volume, h.host]

structure RenameOk (w₀ : World) (b : Bindings) (r : PendingRename) : Prop where
  old : b.entry r.oldKey = some r.oldPath
  new : b.entry r.newKey = none
  target : ∃ hostDir, w₀.bindings.dir r.newKey.1 = some hostDir ∧
    r.newPath = childPath hostDir r.newKey.2 ∧ nameIsHostSafe r.newKey.2 = true

structure DeleteOk (plan : Plan) (w₀ : World) (b : Bindings) (d : PendingDelete) : Prop where
  bound : b.entry d.key = some d.path
  justified : Justified plan w₀ d

def Act.goneKeys : Act → List Key
  | .rename r => [r.oldKey, r.newKey]
  | .delete d => [d.key]
  | _ => []

def GoneAct (plan : Plan) (w₀ : World) (b : Bindings) : Act → Prop
  | .rename r => RenameOk w₀ b r
  | .delete d => DeleteOk plan w₀ b d
  | _ => False

structure GoneActs (plan : Plan) (w₀ : World) (b : Bindings) (l : List Act) : Prop where
  each : ∀ a ∈ l, GoneAct plan w₀ b a
  apart : l.Pairwise fun a a' => a.goneKeys.Disjoint a'.goneKeys

theorem GoneActs.perm {b : Bindings} {l l' : List Act} (h : GoneActs plan w₀ b l)
    (hperm : l'.Perm l) : GoneActs plan w₀ b l' :=
  ⟨fun a ha => h.each a (hperm.mem_iff.mp ha),
    (hperm.pairwise_iff fun hdisjoint => hdisjoint.symm).mpr h.apart⟩

def Gone.acts (gone : Gone) : List Act := gone.renames.map .rename ++ gone.deletes.map .delete

/-- What was decided on the way: its keys are done, or new ones that were handled. -/
structure GoneOk (plan : Plan) (w₀ : World) (done : List Key) (gone : Gone) : Prop where
  acts : GoneActs plan w₀ w₀.bindings gone.acts
  keys : ∀ a ∈ gone.acts, ∀ k ∈ a.goneKeys,
    k ∈ done ∨ k ∈ gone.handled ∧ w₀.bindings.entry k = none
  bound : ∀ k ∈ done, w₀.bindings.entry k ≠ none

theorem GoneOk.weaken {done : List Key} {gone : Gone} (h : GoneOk plan w₀ done gone) {key : Key}
    (hkey : w₀.bindings.entry key ≠ none) : GoneOk plan w₀ (key :: done) gone where
  acts := h.acts
  keys a ha k hk := (h.keys a ha k hk).imp_left (List.mem_cons_of_mem key)
  bound := List.forall_mem_cons.mpr ⟨hkey, h.bound⟩

/-- One more act is decided, of a key that is not done and new keys that were not handled. -/
theorem GoneOk.push {done : List Key} {gone gone' : Gone} (h : GoneOk plan w₀ done gone) {a : Act}
    {key : Key} (ha : GoneAct plan w₀ w₀.bindings a) (hacts : gone'.acts.Perm (a :: gone.acts))
    (hkey : w₀.bindings.entry key ≠ none) (hhandled : ∀ k ∈ gone.handled, k ∈ gone'.handled)
    (hkeys : ∀ k ∈ a.goneKeys, k = key ∧ k ∉ done ∨
      k ∈ gone'.handled ∧ w₀.bindings.entry k = none ∧ k ∉ gone.handled) :
    GoneOk plan w₀ (key :: done) gone' where
  acts := by
    refine GoneActs.perm ⟨List.forall_mem_cons.mpr ⟨ha, h.acts.each⟩,
      List.pairwise_cons.mpr ⟨fun a' ha' k hk hk' => ?_, h.acts.apart⟩⟩ hacts
    rcases hkeys k hk with ⟨rfl, hfresh⟩ | ⟨-, hnew, hfresh⟩
    · rcases h.keys a' ha' k hk' with hdone | ⟨-, hnone⟩
      · exact hfresh hdone
      · exact hkey hnone
    · rcases h.keys a' ha' k hk' with hdone | ⟨hin, -⟩
      · exact h.bound k hdone hnew
      · exact hfresh hin
  keys a' ha' k hk := by
    rcases List.mem_cons.mp (hacts.mem_iff.mp ha') with rfl | ha'
    · rcases hkeys k hk with ⟨rfl, -⟩ | ⟨hin, hnew, -⟩
      · exact Or.inl List.mem_cons_self
      · exact Or.inr ⟨hin, hnew⟩
    · exact (h.keys a' ha' k hk).imp (List.mem_cons_of_mem key) (And.imp_left (hhandled k))
  bound := List.forall_mem_cons.mpr ⟨hkey, h.bound⟩

theorem renameTarget_spec {live : List Facade.LiveEntry} {handled : List Key} {m : MirrorEntry}
    {target : Key × PathBuf} (h : renameTarget w live handled m = some target) :
    ∃ l ∈ live, target.1 = l.key ∧ l.key ∉ w.facade.mirrored ∧ l.key ∉ handled ∧
      w.facade.dirPaths.lookup l.dirCluster = some target.2 := by
  unfold renameTarget at h
  split_ifs at h
  split at h
  · next l hfresh =>
    have hl : l ∈ freshClaimants w live handled m := by rw [hfresh]; exact List.mem_cons_self
    obtain ⟨hmem, hcond⟩ := List.mem_filter.mp hl
    obtain ⟨-, -, hmirrored, hhandled⟩ := of_decide_eq_true hcond
    obtain ⟨hostDir, hdir, rfl⟩ := Option.map_eq_some_iff.mp h
    exact ⟨l, hmem, rfl, hmirrored, hhandled, hdir⟩
  · cases h

theorem gives_fatEntryNow (plan : Plan) (w : World) (c : ℕ) :
    Gives (Facade.fatEntry (w.overlay plan) w.facade w.files c) (w.fatEntryNow c) :=
  gives_fatEntry (gives_overlayRead w.facade plan.readFault) c

/-- The probe of a chain tells what is in the FAT. -/
theorem gives_chainFreed {m : MirrorEntry} {entry : Id ℕ}
    (h : Gives (Facade.fatEntry (w.overlay plan) w.facade w.files m.firstCluster) entry) :
    ∃ freed, Gives (chainFreed plan w m) freed ∧
      (freed = true → m.firstCluster < 2 ∨ entry.run = 0) := by
  unfold chainFreed
  split_ifs with hlow
  · exact ⟨true, gives_pure true, fun _ => Or.inl hlow⟩
  · exact ⟨_, h.bind (gives_pure _), fun h => Or.inr (of_decide_eq_true h)⟩

theorem ranClean_fatEntry (hw : Unmoved w₀ w) {m : MirrorEntry} {n : ℕ}
    (h : RanClean n (chainFreed plan w m)) : m.firstCluster < 2 ∨
      RanClean n (Facade.fatEntry (w₀.overlay plan) w₀.facade w₀.files m.firstCluster) := by
  by_cases hlow : m.firstCluster < 2
  · exact Or.inl hlow
  · obtain ⟨t, ht, hclean⟩ := h
    rw [chainFreed, if_neg hlow, hw.fatEntry] at hclean
    exact Or.inr ⟨t, ht, hclean⟩

variable {live : List Facade.LiveEntry} {done : List Key} {gone : Gone}

/-- One entry of the second phase. -/
theorem disappear_ok (hw : Unmoved w₀ w) (hlive : ∀ l, l ∈ live ↔ w₀.Live l)
    (hgather : RanClean w₀.tally.reads (gatherLive plan w₀)) (h : GoneOk plan w₀ done gone)
    {e : Key × MirrorEntry} (he : w₀.facade.mirrored.lookup e.1 = some e.2) (hnew : e.1 ∉ done) :
    Always w₀.tally.reads (GoneOk plan w₀ (e.1 :: done)) (disappear plan w live gone e) := by
  have hbound : w₀.bindings.entry e.1 = some e.2.hostPath := by
    simp [World.bindings, Facade.bindings, he]
  have hmirror : w₀.bindings.entry e.1 ≠ none := hbound ▸ Option.some_ne_none _
  unfold disappear
  split_ifs with hin
  · exact always_pure (h.weaken hmirror)
  cases htarget : renameTarget w live gone.handled e.2 with
  | some target =>
    obtain ⟨l, hl, hkey, hmirrored, hhandled, hdir⟩ := renameTarget_spec htarget
    rw [hw.mirrored] at hmirrored
    rw [hw.dirPaths] at hdir
    have hnone : w₀.bindings.entry target.1 = none := by
      simp only [hkey, World.bindings, Facade.bindings, AList.lookup_eq_none.mpr hmirrored,
        Option.map_none]
    have hok : RenameOk w₀ w₀.bindings ⟨e.1, target.1, e.2.hostPath,
        childPath target.2 target.1.2, e.2.firstCluster, e.2.isDir⟩ := by
      refine ⟨hbound, hnone, target.2, ?_, rfl, ?_⟩
      · rw [hkey]
        exact hdir
      · rw [hkey]
        exact Live.safe ((hlive l).mp hl)
    refine always_pure (h.push (a := .rename _) hok ?_ hmirror
      (fun k => List.mem_cons_of_mem _) fun k hk => ?_)
    · simp only [Gone.acts, List.map_append, List.map_cons, List.map_nil, List.append_assoc,
        List.singleton_append]
      exact List.perm_middle
    · rcases List.mem_pair.mp hk with rfl | rfl
      · exact Or.inl ⟨rfl, hnew⟩
      · exact Or.inr ⟨List.mem_cons_self, hnone, hkey ▸ hhandled⟩
  | none =>
    have hprobe := gives_fatEntryNow plan w₀ e.2.firstCluster
    rw [← hw.fatEntry] at hprobe
    obtain ⟨b, hgives, hb⟩ := gives_chainFreed hprobe
    refine hgives.bracket.bind fun probed hprobed => ?_
    cases probed with
    | none => exact always_pure (h.weaken hmirror)
    | some freed =>
      obtain ⟨hfreed, hclean⟩ := hprobed freed rfl
      dsimp only
      split_ifs with hdelete
      · simp only [Bool.and_eq_true, Bool.not_eq_true', List.any_eq_false,
          decide_eq_true_eq] at hdelete
        have hjustified : Justified plan w₀ ⟨e.1, e.2.hostPath, e.2.firstCluster, e.2.isDir⟩ :=
          ⟨fun l hl hkey => hin (List.mem_map.mpr ⟨l, (hlive l).mpr hl, hkey⟩),
            fun l hl => hdelete.2 l ((hlive l).mpr hl), hb (hfreed ▸ hdelete.1), hgather,
            ranClean_fatEntry hw hclean⟩
        refine always_pure (h.push (a := .delete ⟨e.1, e.2.hostPath, e.2.firstCluster, e.2.isDir⟩)
          ⟨hbound, hjustified⟩ ?_ hmirror (fun k hk => hk) fun k hk => ?_)
        · simp only [Gone.acts, List.map_append, List.map_cons, List.map_nil, ← List.append_assoc]
          exact List.perm_append_singleton _ _
        · exact Or.inl ⟨List.mem_singleton.mp hk, List.mem_singleton.mp hk ▸ hnew⟩
      · exact always_pure (h.weaken hmirror)

theorem disappearances_ok (hw : Unmoved w₀ w) (hlive : ∀ l, l ∈ live ↔ w₀.Live l)
    (hgather : RanClean w₀.tally.reads (gatherLive plan w₀)) (es : List (Key × MirrorEntry))
    (h : GoneOk plan w₀ done gone)
    (hes : ∀ e ∈ es, w₀.facade.mirrored.lookup e.1 = some e.2)
    (hnodup : (es.map Prod.fst).Nodup) (hdone : ∀ e ∈ es, e.1 ∉ done) :
    Always w₀.tally.reads (fun gone => ∃ done, GoneOk plan w₀ done gone)
      (disappearances plan w live es gone) := by
  induction es generalizing done gone with
  | nil => exact always_pure ⟨done, h⟩
  | cons e rest ih =>
    obtain ⟨hfresh, hrest⟩ := List.nodup_cons.mp hnodup
    refine (disappear_ok hw hlive hgather h (hes e List.mem_cons_self)
      (hdone e List.mem_cons_self)).bind fun gone hgone => ?_
    refine ih hgone (fun e' he' => hes e' (List.mem_cons_of_mem _ he')) hrest fun e' he' => ?_
    intro hmem
    rcases List.mem_cons.mp hmem with heq | hmem
    · exact hfresh (heq ▸ List.mem_map_of_mem he')
    · exact hdone e' (List.mem_cons_of_mem _ he') hmem

theorem mirroredEntries_spec (hw : Unmoved w₀ w) :
    (∀ e ∈ mirroredEntries plan w, w₀.facade.mirrored.lookup e.1 = some e.2) ∧
      ((mirroredEntries plan w).map Prod.fst).Nodup := by
  have hperm := plan.shuffle_perm (Key × MirrorEntry) (3*w.passes+1)
    (w.facade.mirrored.entries.map fun e => (e.1, e.2))
  constructor
  · intro e he
    obtain ⟨s, hs, rfl⟩ := List.mem_map.mp (hperm.mem_iff.mp he)
    rw [← hw.mirrored]
    exact AList.mem_lookup_iff.mpr hs
  · unfold mirroredEntries
    rw [(hperm.map Prod.fst).nodup_iff, List.map_map]
    exact w.facade.mirrored.nodupKeys

variable {b : Bindings} {a a' : Act} {rest : List Act}

theorem GoneAct.sound (h : GoneAct plan w₀ b a) : Sound plan w₀ b a := by
  cases a with
  | rename r =>
    obtain ⟨hold, hnew, hostDir, hdir, hpath, hsafe⟩ := h
    exact .rename hold hnew hdir hpath hsafe
  | delete d => exact .delete h.bound h.justified
  | _ => exact h.elim

theorem GoneAct.backed (h : GoneAct plan w₀ b a) (f : Facade) : a.Backed f := by
  cases a with
  | note n => exact h.elim
  | _ => trivial

theorem GoneAct.apply_entry (h : GoneAct plan w₀ b a) {k : Key} (hk : k ∉ a.goneKeys) :
    (b.apply a).entry k = b.entry k := by
  cases a with
  | rename r =>
    simp only [Act.goneKeys, List.mem_cons, List.not_mem_nil, or_false, not_or] at hk
    simp only [Bindings.apply, Function.update_of_ne hk.2, Function.update_of_ne hk.1]
  | delete d =>
    simp only [Act.goneKeys, List.mem_singleton] at hk
    simp only [Bindings.apply, Function.update_of_ne hk]
  | _ => exact h.elim

theorem GoneAct.of_entries {b' : Bindings} (h : GoneAct plan w₀ b a)
    (he : ∀ k ∈ a.goneKeys, b'.entry k = b.entry k) : GoneAct plan w₀ b' a := by
  cases a with
  | rename r =>
    refine ⟨?_, ?_, h.target⟩
    · rw [he r.oldKey (by simp [Act.goneKeys])]
      exact h.old
    · rw [he r.newKey (by simp [Act.goneKeys])]
      exact h.new
  | delete d =>
    refine ⟨?_, h.justified⟩
    rw [he d.key (by simp [Act.goneKeys])]
    exact h.bound
  | _ => exact h.elim

theorem GoneActs.tail (h : GoneActs plan w₀ b (a :: rest)) : GoneActs plan w₀ b rest :=
  ⟨fun a' ha' => h.each a' (List.mem_cons_of_mem a ha'), (List.pairwise_cons.mp h.apart).2⟩

theorem GoneActs.apply (h : GoneActs plan w₀ b (a :: rest)) :
    GoneActs plan w₀ (b.apply a) rest where
  each a' ha' := by
    refine (h.each a' (List.mem_cons_of_mem a ha')).of_entries fun k hk => ?_
    refine (h.each a List.mem_cons_self).apply_entry fun hk' => ?_
    exact (List.pairwise_cons.mp h.apart).1 a' ha' hk' hk
  apart := (List.pairwise_cons.mp h.apart).2

theorem deleteOrder_perm (deletes : List PendingDelete) : (deleteOrder deletes).Perm deletes := by
  have hperm := List.filter_append_perm (fun d : PendingDelete => !d.isDir) deletes
  simp only [Bool.not_not] at hperm
  exact hperm

/-- The renames and deletes of a pass, as they are done. -/
theorem gone_steps (h : GoneOk plan w₀ done gone) (t : Trail)
    (ht : t.world.bindings = w₀.bindings) :
    Steps plan w₀ t ((t.acts plan (gone.renames.map .rename)).acts plan
      ((deleteOrder gone.deletes).map .delete)) := by
  have hacts := h.acts.perm (((deleteOrder_perm gone.deletes).map Act.delete).append_left
    (gone.renames.map Act.rename))
  rw [← ht] at hacts
  have hsteps := (steps_acts (P := GoneActs plan w₀)
    (fun b a rest h => (h.each a List.mem_cons_self).sound)
    (fun b a rest f h => (h.each a List.mem_cons_self).backed f)
    (fun b a rest h => h.tail) (fun b a rest h => h.apply) _ t hacts).1
  rwa [Trail.acts, List.foldl_append] at hsteps

end IzarraVM.Katea
