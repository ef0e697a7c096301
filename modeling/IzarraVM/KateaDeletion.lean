import IzarraVM.KateaFiles

/-! What a pass removes is gone from the guest's disk and is no other entry's, and what it moves
keeps its bytes. -/
namespace IzarraVM.Katea

variable {plan : Plan} {w₀ : World}

/-- What was logged on the way was sound when it was done. -/
theorem Steps.logged {t t' : Trail} (h : Steps plan w₀ t t') :
    ∃ new, t'.log = new ++ t.log ∧ ∀ x ∈ new, Sound plan w₀ x.1.bindings x.2 := by
  induction h with
  | refl => exact ⟨[], rfl, fun x hx => by cases hx⟩
  | @tail t₁ t₂ _ hstep ih =>
    obtain ⟨new, hlog, hnew⟩ := ih
    cases hstep with
    | quiet _ hsame => exact ⟨new, hsame.trans hlog, hnew⟩
    | @act a hsound _ =>
      refine ⟨(t₁.world, a) :: new, congrArg (List.cons _) hlog, ?_⟩
      rintro x (_ | ⟨_, hx⟩)
      · exact hsound
      · exact hnew x hx

def Act.deleted : Act → Option PendingDelete
  | .delete d => some d
  | _ => none

def DeleteSafe (plan : Plan) (w₀ w : World) (a : Act) : Prop :=
  ∀ d ∈ a.deleted, Justified plan w₀ d ∧ OwnedBy w.bindings d.path d.key

theorem Sound.deleteSafe {w : World} {a : Act} (h : Sound plan w₀ w.bindings a)
    (hw : Unaliased w.bindings) : DeleteSafe plan w₀ w a := by
  intro d hd
  cases h with
  | delete hbound hjust =>
    cases hd
    exact ⟨hjust, fun k hk => hw k d.key d.path hk (Or.inl hbound)⟩
  | _ => cases hd

def Act.writes : Act → Option (Key × ℕ)
  | .stream p => some (p.key, p.firstCluster)
  | .write p => some (p.key, p.firstCluster)
  | _ => none

/-- The file of an entry keeps its bytes, where it was or where its rename took it, unless it is
removed as gone or the guest writes it under its name. -/
def BytesSafe (plan : Plan) (w₀ w : World) (a : Act) : Prop :=
  ∀ k path, w.bindings.entry k = some path →
    (w.exec plan a).2.host.fs.read path = w.host.fs.read path ∨
    (∃ r, a = .rename r ∧ r.oldKey = k ∧
      (w.exec plan a).2.host.fs.read r.newPath = w.host.fs.read path ∧
      (w.exec plan a).2.bindings.entry r.newKey = some r.newPath) ∨
    (∃ d ∈ a.deleted, d.key = k ∧ Justified plan w₀ d) ∨
    ∃ c, a.writes = some (k, c) ∧ w.OwnName k c

theorem Sound.bytesSafe {w : World} {a : Act} (h : Sound plan w₀ w.bindings a)
    (hfaults : plan.hostFaults.Harmless) (hw : Unaliased w.bindings) (hfree : PathFree w a)
    (hlinks : Unlinked w a) (hset : Settled w a) : BytesSafe plan w₀ w a := by
  intro k path hk
  have howns : w.bindings.Owns k path := Or.inl hk
  by_cases hpath : path ∈ a.hostPaths
  · cases h with
    | note n => cases hpath
    | @rename r _ hold _ _ _ _ =>
      have hkey : k = r.oldKey := by
        rcases List.mem_cons.mp hpath with rfl | hnew
        · exact hw k r.oldKey r.oldPath howns (Or.inl hold)
        · exact hfree k (List.mem_singleton.mp hnew ▸ howns)
      have hsame : path = r.oldPath := by
        rw [hkey, hold] at hk
        exact (Option.some.inj hk).symm
      rw [hsame]
      rcases (renameEntry_touches hfaults hset).2 with hkept | ⟨hmoved, hbound⟩
      · exact Or.inl hkept
      · exact Or.inr (Or.inl ⟨r, rfl, hkey.symm, hmoved, hbound⟩)
    | @delete d hbound hjust =>
      have hkey : k = d.key :=
        hw k d.key d.path (List.mem_singleton.mp hpath ▸ howns) (Or.inl hbound)
      exact Or.inr (Or.inr (Or.inl ⟨d, rfl, hkey.symm, hjust⟩))
    | @mkdir p _ _ _ _ =>
      have hmade : HostFs.Touches [] [] _ _ := makeDir_touches hfaults w p
      exact Or.inl (hmade.read List.not_mem_nil fun _ _ => List.not_mem_nil)
    | @stream p hnames =>
      have hkey : k = p.key :=
        hw.ownedBy_of_names hnames hfree k (List.mem_singleton.mp hpath ▸ howns)
      rw [hkey]
      exact Or.inr (Or.inr (Or.inr ⟨p.firstCluster, rfl, hset⟩))
    | @write p hnames =>
      rcases List.mem_cons.mp hpath with rfl | htmp
      · have hkey : k = p.key := hw.ownedBy_of_names hnames hfree k howns
        rw [hkey]
        exact Or.inr (Or.inr (Or.inr ⟨p.firstCluster, rfl, hset.1⟩))
      · exact absurd howns (hset.2 path (Option.mem_toList.mp htmp) k (w.owner_mem howns))
    | reinstall _ _ => cases hpath
  · exact Or.inl (exec_read hfaults hset hlinks hpath)

def movingEvents : List Event := [.linkCluster, .writeRoot [(shortName [0x41], 3)], .flush,
  .writeRoot [(shortName [0x42], 3)]]

/-- The names that the guest's directories have. -/
def World.liveKeys (w : World) : List Key :=
  w.facade.dirPaths.keys.flatMap fun d =>
    (Facade.scanDir w.facade.stored w.facade w.files d).run.filterMap fun p =>
      (Facade.liveOf w.facade.systemNames p).map Facade.LiveEntry.key

def sharingEvents : List Event := [.linkCluster,
  .writeRoot [(shortName [0x80], 3), (shortName [0x81], 0)], .flush, .writeRoot [(shortName [0x80], 7)]]

end IzarraVM.Katea
