import IzarraVM.KateaPass

/-! Commits, flushes and sessions as runs of sound acts, and what holds in all their states. -/
namespace IzarraVM.Katea
open Reading

variable {plan : Plan} {w₀ : World}

variable (t : Trail)

theorem notePending_steps : Steps plan w₀ t (notePending plan t) := by
  unfold notePending
  split_ifs
  · exact steps_note t (.pending _) trivial
  · exact (steps_read t _).trans (steps_note _ (.pending _) trivial)

theorem holds_steps (lbas : List ℕ) (t : Trail)
    (h : ∀ lba ∈ lbas, t.world.facade.store.isPending lba = true) :
    Steps plan w₀ t (t.acts plan (lbas.map fun lba => .note (.hold lba))) := by
  induction lbas generalizing t with
  | nil => exact .refl
  | cons lba rest ih =>
    refine (steps_note t (.hold lba) (h lba List.mem_cons_self)).trans (ih _ fun lba' hmem => ?_)
    obtain ⟨index, total, heq⟩ := t.world.facade.noteUnmapped_eq lba
    rw [show (t.note plan (.hold lba)).world.facade = _ from heq]
    exact h lba' (List.mem_cons_of_mem _ hmem)

/-- A projection put back under the path it has leaves every binding as it was. -/
theorem reinstall_bindings {t : Trail} {key : Key} {file : ProjectedFile}
    (h : t.world.bindings.projection key = some file.path) (chain : List ℕ) :
    (t.act plan (.reinstall key file chain)).world.bindings = t.world.bindings := by
  refine (Facade.installProjection_bindings _ _ _ _ _ _).trans ?_
  ext1
  · rfl
  · exact Function.update_eq_self_iff.mpr h.symm
  · rfl

theorem refreshOne_spec {t : Trail} {p : Key × ProjectedFile}
    (hp : t.world.bindings.projection p.1 = some p.2.path) :
    Steps plan w₀ t (refreshOne plan t p) ∧
      (refreshOne plan t p).world.bindings = t.world.bindings := by
  have hblock (r : Reading (Option Facade.ChainFacts)) (keys : List Key) :
      Steps plan w₀ t ((t.read r).2.note plan (.block keys)) ∧
        ((t.read r).2.note plan (.block keys)).world.bindings = t.world.bindings :=
    ⟨(steps_read t r).trans (steps_note _ (.block _) trivial), note_world_bindings _ _⟩
  unfold refreshOne
  dsimp only
  split
  · exact hblock _ _
  · split_ifs
    · exact hblock _ _
    · exact hblock _ _
    · exact hblock _ _
    · have hread (r : Reading (Option Facade.ChainFacts)) (chain : List ℕ) :
          Steps plan w₀ t ((t.read r).2.act plan (.reinstall p.1 p.2 chain)) :=
        (steps_read t r).trans (steps_act (.reinstall chain hp) trivial)
      exact ⟨hread _ _, reinstall_bindings (t := (t.read _).2) hp _⟩

theorem refresh_steps (affected : List (Key × ProjectedFile)) {t : Trail}
    (h : ∀ p ∈ affected, t.world.bindings.projection p.1 = some p.2.path) :
    Steps plan w₀ t (affected.foldl (refreshOne plan) t) := by
  induction affected generalizing t with
  | nil => exact .refl
  | cons p rest ih =>
    obtain ⟨hone, hb⟩ := refreshOne_spec (h p List.mem_cons_self)
    refine hone.trans (ih fun p' hp' => ?_)
    rw [hb]
    exact h p' (List.mem_cons_of_mem p hp')

theorem refreshChangedFatProjections_steps :
    Steps plan w₀ t (refreshChangedFatProjections plan t) := by
  refine refresh_steps _ fun p hp => ?_
  obtain ⟨k, -, hk⟩ := List.mem_filterMap.mp hp
  obtain ⟨file, hfile, rfl⟩ := Option.map_eq_some_iff.mp hk
  exact congrArg (Option.map ProjectedFile.path) hfile

theorem batchOne_steps (p : ProjectedBatch × Trail) (lba : ℕ) :
    Steps plan w₀ p.2 (batchOne plan p lba).2 := by
  unfold batchOne
  dsimp only
  split_ifs with hskip
  · exact .refl
  · have hpending : p.2.world.facade.store.isPending lba = true := by
      simp only [Bool.or_eq_true, Bool.not_eq_true', not_or, Bool.not_eq_false] at hskip
      exact hskip.1
    split
    · exact steps_note _ (.hold lba) hpending
    · split
      · exact steps_note _ (.hold lba) hpending
      · exact .refl

theorem batch_steps (lbas : List ℕ) (p : ProjectedBatch × Trail) :
    Steps plan w₀ p.2 (lbas.foldl (batchOne plan) p).2 := by
  induction lbas generalizing p with
  | nil => exact .refl
  | cons lba rest ih => exact (batchOne_steps p lba).trans (ih _)

/-- A file of a batch is streamed to where it is projected. -/
theorem streamBatch_steps (l : List (Key × ℕ × List (ℕ × ℕ))) (t : Trail) :
    Steps plan w₀ t (streamBatch plan l t).2 := by
  induction l generalizing t with
  | nil => exact .refl
  | cons p rest ih =>
    obtain ⟨key, reach, sectors⟩ := p
    unfold streamBatch
    split
    · exact ih t
    · next file hfile =>
      have hnames : Names t.world.bindings key file.path :=
        .projection (congrArg (Option.map ProjectedFile.path) hfile)
      dsimp only
      split_ifs
      · exact (steps_act (.stream hnames) trivial).trans (ih _)
      · exact steps_act (.stream hnames) trivial

theorem streamCommand_steps : Steps plan w₀ t (streamCommand plan t) := by
  have hbatch (t : Trail) : Steps plan w₀ t (streamProjectedBatch plan t).2 := by
    have hdrain : Steps plan w₀ t (t.note plan .drain) := steps_note t .drain trivial
    exact (hdrain.trans (batch_steps _ (∅, t.note plan .drain))).trans (streamBatch_steps _ _)
  have hhold (t : Trail) : Steps plan w₀ t (holdStranded plan t) := by
    unfold holdStranded
    dsimp only
    refine ((holds_steps _ t fun lba hmem => ?_).trans (steps_note _ .rearm trivial)).trans
      (steps_note _ .failed trivial)
    exact (Bool.and_eq_true_iff.mp (List.mem_filter.mp hmem).2).1
  have hstream := (refreshChangedFatProjections_steps t).trans (hbatch _)
  unfold streamCommand
  dsimp only
  split_ifs
  · exact hstream
  · exact hstream.trans (hhold _)

theorem flushWriteHandles_steps : Steps plan w₀ t (flushWriteHandles plan t) := by
  unfold flushWriteHandles
  dsimp only
  split
  · exact .single (.quiet (.counted _) rfl)
  · next host _ =>
    have hquiet : Steps plan w₀ t { t with world := { t.world with host } } :=
      .single (.quiet .same rfl)
    exact hquiet.trans (steps_note _ .failed trivial)

def passStart (plan : Plan) (t : Trail) : World := (t.nextPass.note plan .begin).world

theorem begin_steps : Steps plan w₀ t (t.nextPass.note plan .begin) := by
  have hnext : Steps plan w₀ t t.nextPass := .single (.quiet .same rfl)
  exact hnext.trans (steps_note _ .begin trivial)

theorem commitGuestWriteBatch_steps :
    Steps plan (passStart plan t) t (commitGuestWriteBatch plan t).2 := by
  unfold commitGuestWriteBatch
  dsimp only
  refine (begin_steps t).trans (.trans ?_ (steps_note _ .close trivial))
  split_ifs
  · exact (reconcileMode_steps _ _).trans (notePending_steps _)
  · exact streamCommand_steps _

theorem flushGuestWrites_steps :
    Steps plan (passStart plan t) t (flushGuestWrites plan t).2 := by
  have hpass : Steps plan (passStart plan t) t
      (notePending plan (reconcileMode plan .final (t.nextPass.note plan .begin))) :=
    ((begin_steps t).trans (reconcileMode_steps _ _)).trans (notePending_steps _)
  exact (hpass.trans (flushWriteHandles_steps _)).trans (steps_note _ .close trivial)

theorem event_steps (e : Event) : Steps plan (passStart plan t) t (t.event plan e) := by
  cases e with
  | writeSector lba data faults =>
    exact .single (.quiet (.wrote lba data faults) rfl)
  | commit => exact commitGuestWriteBatch_steps t
  | flush => exact flushGuestWrites_steps t

section Invariants

variable {I : Bindings → Prop} {C P : World → Act → Prop}

def Keeps (plan : Plan) (I : Bindings → Prop) (C P : World → Act → Prop) : Prop :=
  ∀ (w₀ w : World) (a : Act), I w₀.bindings → I w.bindings → Sound plan w₀ w.bindings a → C w a →
    P w a ∧ I (w.bindings.apply a)

def Guarded (I : Bindings → Prop) (C P : World → Act → Prop) (t : Trail) : Prop :=
  (∀ x ∈ t.log, C x.1 x.2) → I t.world.bindings ∧ ∀ x ∈ t.log, P x.1 x.2

theorem Step.guarded (hkeeps : Keeps plan I C P) (h₀ : I w₀.bindings) {t t' : Trail}
    (hstep : Step plan w₀ t t') (h : Guarded I C P t) : Guarded I C P t' := by
  cases hstep with
  | quiet hq hlog =>
    unfold Guarded
    rw [show t'.world.bindings = _ from hq.bindings, hlog]
    exact h
  | @act a hsound _ =>
    intro hC
    obtain ⟨hI, hP⟩ := h fun x hx => hC x (List.mem_cons_of_mem _ hx)
    obtain ⟨hPa, hIa⟩ := hkeeps w₀ t.world a h₀ hI hsound (hC (t.world, a) List.mem_cons_self)
    constructor
    · exact act_bindings hI hIa
    · rintro x (_ | ⟨_, hx⟩)
      · exact hPa
      · exact hP x hx

/-- The log only grows. -/
theorem Steps.log_subset {t t' : Trail} (h : Steps plan w₀ t t') : t.log ⊆ t'.log := by
  induction h with
  | refl => exact List.Subset.refl _
  | tail _ hstep ih =>
    cases hstep with
    | quiet _ hlog =>
      rw [hlog]
      exact ih
    | act _ _ => exact fun x hx => List.mem_cons_of_mem _ (ih hx)

theorem Steps.guarded (hkeeps : Keeps plan I C P) (h₀ : I w₀.bindings) {t t' : Trail}
    (hsteps : Steps plan w₀ t t') (h : Guarded I C P t) : Guarded I C P t' := by
  induction hsteps with
  | refl => exact h
  | tail _ hstep ih => exact hstep.guarded hkeeps h₀ ih

/-- A property of the bindings that sound acts keep holds all through a session. -/
theorem session_guarded (hkeeps : Keeps plan I C P) (events : List Event) {t : Trail}
    (h : Guarded I C P t) : Guarded I C P (session plan t events) := by
  induction events generalizing t with
  | nil => exact h
  | cons e rest ih =>
    refine ih fun hC => ?_
    have hsteps := @event_steps plan t e
    have hlog := fun x hx => hC x (hsteps.log_subset hx)
    have hstart : I (passStart plan t).bindings := (h hlog).1
    exact hsteps.guarded hkeeps hstart h hC

end Invariants

end IzarraVM.Katea
