import IzarraVM.KateaSession

/-! What an act can do to the disk, to the projection maps and to the index of held sectors. -/
namespace IzarraVM.Katea

namespace Facade

inductive Moves (f : Facade) : Facade → Prop where
  | same {f' : Facade} (h : f'.core = f.core) : f.Moves f'
  | write (lba : ℕ) (data : Sector) (faults : ℕ → SpillFaults) :
      f.Moves (f.writeSector lba data faults)
  | hold {lba : ℕ} (h : f.store.isPending lba = true) : f.Moves (f.noteUnmapped lba)
  | acknowledge (lba : ℕ) : f.Moves (f.acknowledge lba)
  | install (key : Key) (path : PathBuf) (size : ℕ) (chain : List ℕ) (extended : Bool) :
      f.Moves (f.installProjection key path size chain extended)
  | remove (key : Key) : f.Moves (f.removeProjection key)

abbrev Moved : Facade → Facade → Prop := Relation.ReflTransGen Moves

variable {f g g' f' : Facade}

theorem Moved.between (h : g.Moved g') (hfirst : g.core = f.core) (hlast : f'.core = g'.core) :
    f.Moved f' := .head (.same hfirst) (h.tail (.same hlast))

theorem streamed_moved (p : PendingStream) (extent : Extent) (spans : Spans) :
    f.Moved (f.streamed p extent spans) := by
  have hacknowledge (g : Facade) : g.Moved (spans.acknowledged.foldl acknowledge g) :=
    List.foldlRecOn (motive := g.Moved) _ acknowledge .refl fun _ hg lba _ => hg.tail (.acknowledge lba)
  let counted : Facade := { f with
    projectionOperations :=
      f.projectionOperations+spans.spans.length+(if extent.setLen then 1 else 0) }
  have hinstalled : counted.Moved _ := (hacknowledge counted).tail
    (.install p.key p.path extent.size p.chain extent.extended)
  exact hinstalled.between rfl rfl

theorem renamed_moved (r : PendingRename) : f.Moved (f.renamed r) := by
  have hmove : f.noteProjectionOperation.Moved (f.noteProjectionOperation.moveProjection r) := by
    unfold moveProjection
    split
    · exact .single (.remove _)
    · exact .tail (.single (.remove _)) (.install _ _ _ _ _)
  refine hmove.between rfl ?_
  unfold renamed
  dsimp only
  split_ifs <;> rfl

theorem Done.moved {a : Act} (h : f.Done a f') (hback : a.Backed f) : f.Moved f' := by
  cases h with
  | note n =>
    cases n with
    | hold lba => exact .single (.hold hback)
    | sweep live =>
      refine .single (.same ?_)
      exact List.foldlRecOn (motive := fun g : Facade => g.core = f.core) _ unblock rfl
        fun _ hg _ _ => hg
    | _ => exact .single (.same rfl)
  | rename r => exact renamed_moved r
  | delete d =>
    have hremove : (f.noteProjectionOperation.unmirror d.key).Moved _ := .single (.remove d.key)
    refine hremove.between rfl ?_
    unfold deleted
    dsimp only
    split_ifs <;> rfl
  | mkdir p =>
    refine .single (.same ?_)
    unfold madeDir mirrorNew bindDirectory
    split_ifs <;> rfl
  | stream p extent spans => exact streamed_moved p extent spans
  | write p =>
    have hinstall : f.noteProjectionOperation.Moved _ :=
      .single (.install p.key p.path p.gather.size p.chain false)
    exact hinstall.between rfl rfl
  | reinstall key file chain => exact .single (.install _ _ _ _ _)

theorem Quiet.moves (h : f.Quiet f') : f.Moves f' := by
  cases h with
  | wrote lba data faults => exact .write lba data faults
  | _ => exact .same rfl

end Facade

open Facade

theorem exec_moved (plan : Plan) (w : World) {a : Act} (h : a.Backed w.facade) :
    w.facade.Moved (w.exec plan a).2.facade := by
  obtain ⟨g, hleft | hdone, hcore, -⟩ := exec_done plan w a
  · rw [hleft]
    exact .single (.same hcore)
  · refine (hdone.moved ?_).between hcore rfl
    unfold Act.Backed at h ⊢
    split
    · rw [show g.store = w.facade.store from congrArg (fun c => c.2.1) hcore]
      exact h
    · trivial

variable {plan : Plan} {I : Facade → Prop} (hI : ∀ f f' : Facade, f.Moves f' → I f → I f')
include hI

theorem Steps.keeps {w₀ : World} {t t' : Trail} (h : Steps plan w₀ t t') (ht : I t.world.facade) :
    I t'.world.facade := by
  have hmoved {f f' : Facade} (hm : f.Moved f') (hf : I f) : I f' := by
    induction hm with
    | refl => exact hf
    | tail _ hmove ih => exact hI _ _ hmove ih
  induction h with
  | refl => exact ht
  | tail _ hstep ih =>
    cases hstep with
    | quiet hq _ => exact hI _ _ hq.moves ih
    | act _ hback => exact hmoved (exec_moved plan _ hback) ih

/-- What every move keeps holds all through a session. -/
theorem session_keeps (events : List Event) {t : Trail} (ht : I t.world.facade) :
    I (session plan t events).world.facade :=
  List.foldlRecOn (motive := fun t : Trail => I t.world.facade) events (Trail.event plan) ht
    fun t h e _ => (event_steps t e).keeps hI h

end IzarraVM.Katea
