import IzarraVM.PicCascade

/-! Two runs of the pair that differ in one request only. -/
namespace IzarraVM.Interrupts

def BitsOff (x y : BitVec 8) (i : Fin 8) : Prop := ∀ j : Fin 8, j ≠ i → hasBit y j = hasBit x j

namespace BitsOff

variable {x y : BitVec 8} {i : Fin 8}

theorem refl (x : BitVec 8) (i : Fin 8) : BitsOff x x i := fun _ _ => rfl

theorem setBit (h : BitsOff x y i) (j : Fin 8) : BitsOff (setBit x j) (setBit y j) i := by
  intro k hk
  rw [hasBit_setBit j.isLt k.isLt, hasBit_setBit j.isLt k.isLt, h k hk]

theorem clearBit (h : BitsOff x y i) (j : Fin 8) : BitsOff (clearBit x j) (clearBit y j) i := by
  intro k hk
  rw [hasBit_clearBit j.isLt k.isLt, hasBit_clearBit j.isLt k.isLt, h k hk]

/-- A bit that is set in both on a condition that only bit `i` could tell apart. -/
theorem setBit_if (h : BitsOff x y i) {j : Fin 8} {c d : Bool} (hcd : j ≠ i → d = c) :
    BitsOff (if c then IzarraVM.setBit x j else x) (if d then IzarraVM.setBit y j else y) i := by
  intro k hk
  by_cases hkj : k = j
  · subst hkj
    rw [hcd hk]
    split_ifs
    · exact h.setBit k k hk
    · exact h k hk
  · have hne := Pic.ne_val hkj
    have hset (v : BitVec 8) : hasBit (IzarraVM.setBit v j) k = hasBit v k := by
      rw [hasBit_setBit j.isLt k.isLt]
      simp [hne]
    split_ifs
    all_goals simp only [hset, h k hk]

/-- Both sides of a choice agree. -/
theorem ite {x' y' : BitVec 8} (c : Bool) (h : BitsOff x y i) (h' : BitsOff x' y' i) :
    BitsOff (if c then x else x') (if c then y else y') i := by
  cases c
  · exact h'
  · exact h

/-- Touching the bit itself changes nothing. -/
theorem setBit_self (x : BitVec 8) (i : Fin 8) : BitsOff x (IzarraVM.setBit x i) i := by
  intro k hk
  have hne := Pic.ne_val hk
  rw [hasBit_setBit i.isLt k.isLt]
  simp [hne]

end BitsOff

namespace Pic

def withInputs (p : Pic) (irr asserted : BitVec 8) : Pic := { p with irr, asserted }

inductive AgreeOff (p : Pic) (i : Fin 8) : Pic → Prop where
  | intro {irr asserted : BitVec 8} (hirr : BitsOff p.irr irr i)
      (hasserted : BitsOff p.asserted asserted i) : AgreeOff p i (p.withInputs irr asserted)

def Covered (p : Pic) (i : Fin 8) (exempt : Option (Fin 8)) : Prop :=
  hasBit p.imr i = true ∨ hasBit p.isr i = true ∧ exempt ≠ some i

variable {p q : Pic} {i : Fin 8}

theorem AgreeOff.refl (p : Pic) (i : Fin 8) : p.AgreeOff i p :=
  .intro (BitsOff.refl p.irr i) (BitsOff.refl p.asserted i)

theorem AgreeOff.imr (h : p.AgreeOff i q) : q.imr = p.imr := by
  cases h
  rfl

theorem AgreeOff.icw3 (h : p.AgreeOff i q) : q.icw3 = p.icw3 := by
  cases h
  rfl

/-- A line that cannot be delivered has no part in the resolution. -/
theorem AgreeOff.resolve (h : p.AgreeOff i q) {exempt : Option (Fin 8)} (hc : p.Covered i exempt)
    (levels : List (Fin 8)) :
    q.resolve exempt levels = p.resolve exempt levels ∧ p.resolve exempt levels ≠ some i := by
  obtain @⟨irr, asserted, hirr, -⟩ := h
  induction levels with
  | nil => exact ⟨rfl, (Option.some_ne_none i).symm⟩
  | cons level rest ih =>
    obtain ⟨heq, hne⟩ := ih
    have hpending : level ≠ i →
        hasBit (irr &&& ~~~p.imr) level = hasBit (p.irr &&& ~~~p.imr) level := by
      intro hlevel
      rw [hasBit_andNot level.isLt, hasBit_andNot level.isLt, hirr level hlevel]
    have hstep : (p.withInputs irr asserted).resolve exempt (level :: rest) =
        if hasBit p.isr level && decide (exempt ≠ some level) then
          if p.specialMask then (p.withInputs irr asserted).resolve exempt rest else none
        else if hasBit (irr &&& ~~~p.imr) level then some level
        else (p.withInputs irr asserted).resolve exempt rest := rfl
    rw [hstep, Pic.resolve, heq]
    by_cases hlevel : level = i
    · subst hlevel
      rcases hc with hmask | ⟨hbusy, hexempt⟩
      · -- a masked line is passed over
        have hsilent (v : BitVec 8) : hasBit (v &&& ~~~p.imr) level = false := by
          rw [hasBit_andNot level.isLt, hmask, Bool.not_true, Bool.and_false]
        rw [hsilent, hsilent]
        rw [if_neg Bool.false_ne_true]
        refine ⟨rfl, ?_⟩
        split_ifs
        · exact hne
        · exact (Option.some_ne_none level).symm
        · exact hne
      · -- a line in service ends the walk, or is passed over in special mask mode
        simp only [hbusy, hexempt, ne_eq, not_false_eq_true, decide_true, Bool.and_self, if_true,
          true_and]
        split_ifs
        · exact hne
        · exact not_false
    · rw [hpending hlevel]
      refine ⟨rfl, ?_⟩
      split_ifs
      · exact hne
      · exact (Option.some_ne_none i).symm
      · exact fun h => hlevel (Option.some.inj h)
      · exact hne

theorem AgreeOff.highestPending (h : p.AgreeOff i q) {exempt : Option (Fin 8)}
    (hc : p.Covered i exempt) : q.highestPending exempt = p.highestPending exempt := by
  have hresolve := (h.resolve hc p.priorityOrder).1
  cases h
  exact hresolve

def served (p : Pic) (j : Fin 8) : Pic :=
  { p with isr := setBit p.isr j, irr := clearBit p.irr j }

theorem setInService_eq (p : Pic) (j : Fin 8) : p.setInService j =
    if p.autoEoi then
      if p.autoRotate then { (p.served j).clearInService j with lowest := j }
      else (p.served j).clearInService j
    else p.served j := rfl

/-- Two chips with the same level in service stay related at the end of an interrupt, if they do
whatever becomes of it. -/
theorem endOfInterrupt_related {R : Pic → Pic → Prop} {p q : Pic} (ocw2 : BitVec 8)
    (hservice : q.highestInService = p.highestInService) (hsame : R p q)
    (hrotate : R { p with autoRotate := hasBit ocw2 7 } { q with autoRotate := hasBit ocw2 7 })
    (hclear : ∀ level, R (p.clearInService level) (q.clearInService level))
    (hlowest : ∀ level, R { p with lowest := level } { q with lowest := level })
    (hboth : ∀ level, R { p.clearInService level with lowest := level }
      { q.clearInService level with lowest := level }) :
    R (p.endOfInterrupt ocw2) (q.endOfInterrupt ocw2) := by
  unfold endOfInterrupt
  rw [hservice]
  dsimp only
  split
  · exact hrotate
  · exact hrotate
  · cases p.highestInService with
    | none => exact hsame
    | some level => exact hclear level
  · exact hclear _
  · cases p.highestInService with
    | none => exact hsame
    | some level => exact hboth level
  · exact hlowest _
  · exact hboth _
  · exact hsame

def mayNest (p : Pic) (i : Fin 8) : Bool :=
  match p.init with
  | .ready => p.sfnm && hasBit p.icw3 i
  | .expectIcw4 => hasBit p.icw3 i
  | .expectIcw3 => p.sfnm || p.expectIcw4
  | .expectIcw2 => (hasBit p.icw3 i || !p.single) && (p.sfnm || p.expectIcw4)

structure Hidden (p : Pic) (i : Fin 8) : Prop where
  levelTriggered : p.levelTriggered = true
  held : hasBit p.asserted i = true
  inService : hasBit p.isr i = true
  notNested : p.mayNest i = false

structure Plain (i : Fin 8) (f : Pic → Pic) : Prop where
  inputs : ∀ p irr asserted, f (p.withInputs irr asserted) = (f p).withInputs irr asserted
  hidden : ∀ p : Pic, p.Hidden i → (f p).Hidden i

namespace Plain

theorem lowest (level : Fin 8) : Plain i fun p => { p with lowest := level } :=
  ⟨fun _ _ _ => rfl, fun _ hid => { hid with }⟩

theorem autoRotate (rotate : Bool) : Plain i fun p => { p with autoRotate := rotate } :=
  ⟨fun _ _ _ => rfl, fun _ hid => { hid with }⟩

theorem pollPending (poll : Bool) : Plain i fun p => { p with pollPending := poll } :=
  ⟨fun _ _ _ => rfl, fun _ hid => { hid with }⟩

theorem writeOcw3 (value : BitVec 8) : Plain i (Pic.writeOcw3 · value) := by
  refine ⟨fun p irr asserted => ?_, fun p hid => ?_⟩
  all_goals
    unfold Pic.writeOcw3
    cases hasBit value 1 <;> cases hasBit value 2 <;> cases hasBit value 6
  all_goals
    first
    | rfl
    | exact { hid with }

/-- No initialization word makes a line nest that could not. -/
theorem writeData (value : BitVec 8) : Plain i (Pic.writeData · value) := by
  refine ⟨fun p irr asserted => ?_, fun p hid => ?_⟩
  · unfold Pic.writeData
    rw [show (p.withInputs irr asserted).init = p.init from rfl]
    cases p.init <;> rfl
  · have hnest := hid.notNested
    have hfields : (p.writeData value).levelTriggered = p.levelTriggered ∧
        (p.writeData value).asserted = p.asserted ∧ (p.writeData value).isr = p.isr := by
      unfold Pic.writeData
      cases p.init <;> exact ⟨rfl, rfl, rfl⟩
    refine ⟨hfields.1.trans hid.levelTriggered, ?_, ?_, ?_⟩
    · rw [hfields.2.1]
      exact hid.held
    · rw [hfields.2.2]
      exact hid.inService
    · unfold mayNest at hnest
      unfold Pic.writeData mayNest
      cases hstage : p.init <;> simp only [hstage] at hnest ⊢
      · exact hnest
      · cases hsingle : p.single <;> cases hicw4 : p.expectIcw4 <;> simp_all
        exact fun hsfnm => Bool.eq_false_iff.mpr fun hicw3 => by simp_all
      · cases hicw4 : p.expectIcw4 <;> simp_all
      · simp [hnest]

variable {f : Pic → Pic} (hf : Plain i f)
include hf

theorem irr (p : Pic) : (f p).irr = p.irr := by
  have hsame : f p = (f p).withInputs p.irr p.asserted := hf.inputs p p.irr p.asserted
  rw [hsame]
  rfl

theorem asserted (p : Pic) : (f p).asserted = p.asserted := by
  have hsame : f p = (f p).withInputs p.irr p.asserted := hf.inputs p p.irr p.asserted
  rw [hsame]
  rfl

end Plain

theorem AgreeOff.plain {f : Pic → Pic} (hf : Plain i f) (h : p.AgreeOff i q) :
    (f p).AgreeOff i (f q) := by
  obtain @⟨irr, held, hirr, hheld⟩ := h
  rw [hf.inputs]
  refine .intro ?_ ?_
  · rw [hf.irr]
    exact hirr
  · rw [hf.asserted]
    exact hheld

section Operations

variable (h : p.AgreeOff i q)
include h

variable (j : Fin 8)

theorem AgreeOff.request : (p.request j).AgreeOff i (q.request j) := by
  obtain ⟨hirr, hasserted⟩ := h
  exact .intro (hirr.setBit j) hasserted

theorem AgreeOff.setInputLevel (asserted : Bool) :
    (p.setInputLevel j asserted).AgreeOff i (q.setInputLevel j asserted) := by
  obtain @⟨irr, held, hirr, hheld⟩ := h
  cases asserted with
  | true =>
    refine .intro (hirr.setBit_if fun hj => ?_) (hheld.setBit j)
    rw [show (p.withInputs irr held).asserted = held from rfl, hheld j hj]
    rfl
  | false => exact .intro (BitsOff.ite p.levelTriggered (hirr.clearBit j) hirr) (hheld.clearBit j)

theorem AgreeOff.clearInService :
    (p.clearInService j).AgreeOff i (q.clearInService j) := by
  obtain @⟨irr, held, hirr, hheld⟩ := h
  refine .intro (hirr.setBit_if fun hj => ?_) hheld
  rw [show (p.withInputs irr held).asserted = held from rfl, hheld j hj]
  rfl

theorem AgreeOff.served : (p.served j).AgreeOff i (q.served j) := by
  obtain ⟨hirr, hheld⟩ := h
  exact .intro (hirr.clearBit j) hheld

theorem AgreeOff.writeIcw1 (value : BitVec 8) : (p.writeIcw1 value).AgreeOff i (q.writeIcw1 value) := by
  obtain @⟨irr, held, -, hheld⟩ := h
  exact .intro (BitsOff.ite (hasBit value 3) hheld (BitsOff.refl 0 i)) hheld

end Operations

/-- A read changes the chip only as a poll. -/
theorem readPort_snd (p : Pic) (port : ℕ) (exempt : Option (Fin 8)) :
    (p.readPort port exempt).2 =
      if p.pollPending then (Pic.poll { p with pollPending := false } exempt).2 else p := by
  unfold Pic.readPort
  split_ifs <;> rfl

structure Kept (i : Fin 8) (R : Pic → Pic → Prop) : Prop where
  agree : ∀ {p q}, R p q → p.AgreeOff i q
  plain : ∀ {f p q}, Plain i f → R p q → R (f p) (f q)
  served : ∀ {p q} j, R p q → R (p.served j) (q.served j)
  clearInService : ∀ {p q} j, R p q → R (p.clearInService j) (q.clearInService j)
  writeIcw1 : ∀ {p q} value, R p q → R (p.writeIcw1 value) (q.writeIcw1 value)

namespace Kept

variable {R : Pic → Pic → Prop} (hR : Kept i R) (h : R p q)
include hR h

theorem setInService (j : Fin 8) : R (p.setInService j) (q.setInService j) := by
  have hserved := hR.served j h
  have hcleared := hR.clearInService j hserved
  have hauto : q.autoEoi = p.autoEoi ∧ q.autoRotate = p.autoRotate := by
    have hagree := hR.agree h
    cases hagree
    exact ⟨rfl, rfl⟩
  rw [setInService_eq, setInService_eq, hauto.1, hauto.2]
  split_ifs
  · exact hR.plain (.lowest j) hcleared
  · exact hcleared
  · exact hserved

theorem endOfInterrupt (ocw2 : BitVec 8) : R (p.endOfInterrupt ocw2) (q.endOfInterrupt ocw2) := by
  have hservice : q.highestInService = p.highestInService := by
    have hagree := hR.agree h
    cases hagree
    rfl
  exact endOfInterrupt_related ocw2 hservice h (hR.plain (.autoRotate _) h)
    (fun level => hR.clearInService level h) (fun level => hR.plain (.lowest level) h)
    fun level => hR.plain (.lowest level) (hR.clearInService level h)

theorem writePort (port : ℕ) (value : BitVec 8) : R (p.writePort port value) (q.writePort port value) := by
  unfold Pic.writePort Pic.writeCommand
  split_ifs
  · exact hR.writeIcw1 value h
  · exact hR.plain (.writeOcw3 value) h
  · exact hR.endOfInterrupt h value
  · exact hR.plain (.writeData value) h

variable {exempt : Option (Fin 8)} (hpending : q.highestPending exempt = p.highestPending exempt)
include hpending

theorem poll : R (p.poll exempt).2 (q.poll exempt).2 := by
  unfold Pic.poll
  rw [hpending]
  cases p.highestPending exempt with
  | none => exact h
  | some level => exact hR.setInService h level

theorem readPort (port : ℕ) : R (p.readPort port exempt).2 (q.readPort port exempt).2 := by
  have hpoll : q.pollPending = p.pollPending := by
    have hagree := hR.agree h
    cases hagree
    rfl
  have hsame : Pic.highestPending { q with pollPending := false } exempt =
      Pic.highestPending { p with pollPending := false } exempt :=
    (q.highestPending_pollPending false exempt).trans
      (hpending.trans (p.highestPending_pollPending false exempt).symm)
  rw [readPort_snd, readPort_snd, hpoll]
  split_ifs
  · exact hR.poll (hR.plain (.pollPending false) h) hsame
  · exact h

end Kept

theorem kept_agreeOff : Kept i (AgreeOff · i ·) :=
  ⟨id, .plain, fun j h => h.served j, fun j h => h.clearInService j, fun value h => h.writeIcw1 value⟩

def Alike (p : Pic) (i : Fin 8) (q : Pic) : Prop :=
  q = p ∨ p.AgreeOff i q ∧ q.asserted = p.asserted ∧ p.Hidden i

theorem BitsOff.eq {x y : BitVec 8} (h : BitsOff x y i) (hi : hasBit y i = hasBit x i) : y = x := by
  apply BitVec.eq_of_getLsbD_eq
  intro k hk
  have hat : hasBit y (⟨k, hk⟩ : Fin 8) = hasBit x (⟨k, hk⟩ : Fin 8) := by
    by_cases hki : (⟨k, hk⟩ : Fin 8) = i
    · rw [hki]
      exact hi
    · exact h _ hki
  rw [hasBit_eq hk, hasBit_eq hk] at hat
  exact hat

theorem AgreeOff.eq (h : p.AgreeOff i q) (hasserted : q.asserted = p.asserted)
    (hirr : hasBit q.irr i = hasBit p.irr i) : q = p := by
  obtain @⟨irr, held, hoff, -⟩ := h
  have hsame : irr = p.irr := BitsOff.eq hoff hirr
  have hheld : held = p.asserted := hasserted
  rw [hsame, hheld]
  rfl

theorem not_nested_of_mayNest (h : p.mayNest i = false) :
    (p.sfnm && hasBit p.icw3 i) = false := by
  unfold mayNest at h
  cases hinit : p.init <;> cases hsfnm : p.sfnm <;> cases hicw3 : hasBit p.icw3 i <;> simp_all

namespace Alike

theorem agree (h : p.Alike i q) : p.AgreeOff i q := by
  rcases h with rfl | h
  · exact AgreeOff.refl q i
  · exact h.1

section Operations

variable (h : p.Alike i q)
include h

/-- An operation that keeps what hides the request, or tells both chips the same about the line. -/
theorem keep {f : Pic → Pic} (hagree : (f p).AgreeOff i (f q))
    (hasserted : q.asserted = p.asserted → (f q).asserted = (f p).asserted)
    (hhidden : p.Hidden i → (f p).Hidden i ∨ hasBit (f q).irr i = hasBit (f p).irr i) :
    (f p).Alike i (f q) := by
  rcases h with rfl | ⟨-, hheld, hid⟩
  · exact Or.inl rfl
  · rcases hhidden hid with hkept | hirr
    · exact Or.inr ⟨hagree, hasserted hheld, hkept⟩
    · exact Or.inl (hagree.eq (hasserted hheld) hirr)

variable (j : Fin 8)

theorem request : (p.request j).Alike i (q.request j) := by
  refine h.keep (f := (Pic.request · j)) (h.agree.request j) id fun hid => Or.inl ?_
  exact { hid with }

theorem setInputLevel (asserted : Bool) :
    (p.setInputLevel j asserted).Alike i (q.setInputLevel j asserted) := by
  refine h.keep (f := (Pic.setInputLevel · j asserted)) (h.agree.setInputLevel j asserted) ?_ ?_
  · intro heq
    cases asserted <;> simp only [Pic.setInputLevel, heq, if_true, Bool.false_eq_true, if_false]
  · intro hid
    have hq : q.levelTriggered = true := by
      have hagree := h.agree
      cases hagree
      exact hid.levelTriggered
    by_cases hj : i = j
    · -- a level triggered chip takes the level of the line for its request
      subst hj
      right
      cases asserted <;>
        simp [Pic.setInputLevel, hid.levelTriggered, hq, hasBit_setBit i.isLt i.isLt,
          hasBit_clearBit i.isLt i.isLt]
    · left
      obtain ⟨-, hheld⟩ := p.setInputLevel_other asserted hj
      refine ⟨?_, hheld.trans hid.held, ?_, ?_⟩
      · cases asserted <;> exact hid.levelTriggered
      · rw [setInputLevel_isr]
        exact hid.inService
      · cases asserted <;> exact hid.notNested

theorem clearInService : (p.clearInService j).Alike i (q.clearInService j) := by
  refine h.keep (f := (Pic.clearInService · j)) (h.agree.clearInService j) id fun hid => ?_
  by_cases hj : i = j
  · -- the line is still held, so that it is requested again
    subst hj
    right
    have hq : (q.levelTriggered && hasBit q.asserted i) = true := by
      rcases h with rfl | ⟨hagree, heq, -⟩
      · rw [hid.levelTriggered, hid.held]
        rfl
      · rw [heq, hid.held]
        cases hagree
        exact congrArg (· && true) hid.levelTriggered
    simp only [Pic.clearInService, hq, hid.levelTriggered, hid.held, Bool.and_self, if_true,
      hasBit_setBit i.isLt i.isLt, decide_true, Bool.or_true]
  · left
    refine ⟨hid.levelTriggered, hid.held, ?_, hid.notNested⟩
    simp only [Pic.clearInService, hasBit_clearBit j.isLt i.isLt, hid.inService, Bool.true_and]
    exact decide_eq_true (ne_val hj)

theorem plain {f : Pic → Pic} (hf : Plain i f) : (f p).Alike i (f q) := by
  refine h.keep (h.agree.plain hf) (fun heq => ?_) fun hid => Or.inl (hf.hidden p hid)
  rw [hf.asserted, hf.asserted, heq]

theorem served : (p.served j).Alike i (q.served j) := by
  refine h.keep (f := (Pic.served · j)) (h.agree.served j) id fun hid => Or.inl ?_
  refine ⟨hid.levelTriggered, hid.held, ?_, hid.notNested⟩
  simp only [Pic.served, hasBit_setBit j.isLt i.isLt, hid.inService, Bool.true_or]

/-- The initialization takes the requests from the levels of the lines. -/
theorem writeIcw1 (value : BitVec 8) : (p.writeIcw1 value).Alike i (q.writeIcw1 value) := by
  refine h.keep (f := (Pic.writeIcw1 · value)) (h.agree.writeIcw1 value) id fun hid => Or.inr ?_
  rcases h with rfl | ⟨-, heq, -⟩
  · rfl
  · simp only [Pic.writeIcw1, heq]

end Operations

end Alike

theorem kept_alike : Kept i (Alike · i ·) :=
  ⟨Alike.agree, fun hf h => h.plain hf, fun j h => h.served j, fun j h => h.clearInService j,
    fun value h => h.writeIcw1 value⟩

end Pic

end IzarraVM.Interrupts
