import IzarraVM.PicCanonical

/-! Pairs of one canonical payload answer alike, but for a dropped rotation flag. -/
namespace IzarraVM.Interrupts

open Canonical Runs Views

namespace Pic

variable {p q : Pic} {m : Bool}

def RotationKept (p q : Pic) : Prop :=
  p.autoEoi = false → p.icw4Expected = true → p.autoRotate = q.autoRotate

theorem initStageTag_inj {stage stage' : InitStage} (h : initStageTag stage = initStageTag stage') :
    stage = stage' := by
  cases stage <;> cases stage' <;> first | rfl | exact absurd h (by decide)

theorem lowest_inj {i j : Fin 8} (h : UInt8.ofNat i = UInt8.ofNat j) : i = j := by
  revert i j
  decide

/-- Chips with equal fields have one view, but for a rotation flag that was dropped. -/
theorem view_of_fields {cascade cascade' : BitVec 8} (hcascade : cascade = wiring m p.icw3)
    (hcascade' : cascade' = wiring m q.icw3)
    (h : p.canonicalFields cascade m = q.canonicalFields cascade' m) :
    p.icw4Expected = q.icw4Expected ∧ p.autoEoi = q.autoEoi ∧
      (p.RotationKept q → p.view m = q.view m) := by
  simp only [canonicalFields, List.cons.injEq, writeU8_inj, writeBool_inj, UInt8.ofBitVec.injEq, and_true] at h
  obtain ⟨hirr, hasserted, hisr, himr, hicw2, hicw3, hinit, hexpect, hsingle, hlevel, heoi, hread, hpoll,
    hmask, hsfnm, hlowest, hrotate⟩ := h
  have hstage := initStageTag_inj hinit
  have hwiring : wiring m p.icw3 = wiring m q.icw3 := by rw [← hcascade, hicw3, hcascade']
  have hicw4 : p.icw4Expected = q.icw4Expected := by
    unfold icw4Expected
    rw [hexpect, hstage]
  refine ⟨hicw4, heoi, fun hkept => ?_⟩
  have hflag : ((p.autoEoi || p.icw4Expected) && p.autoRotate) =
      ((q.autoEoi || q.icw4Expected) && q.autoRotate) := by
    rw [← heoi, ← hicw4]
    cases hon : p.autoEoi with
    | true =>
      rw [← heoi, hon] at hrotate
      exact hrotate
    | false =>
      cases hcomes : p.icw4Expected with
      | true => exact hkept hon hcomes
      | false => rfl
  have hview (r : Pic) : r.view m = ⟨r.irr, r.asserted, r.isr, r.imr, r.icw2 &&& 0xF8#8, wiring m r.icw3,
      r.init, decide (r.init = .expectIcw2 ∨ r.init = .expectIcw3) && r.expectIcw4,
      decide (r.init = .expectIcw2) && r.single, r.levelTriggered, r.autoEoi, false, false, r.readIsr,
      r.pollPending, r.specialMask, m && r.sfnm, r.lowest, (r.autoEoi || r.icw4Expected) && r.autoRotate⟩ :=
    rfl
  rw [hview, hview, hirr, hasserted, hisr, himr, hicw2, hwiring, hexpect, hsingle, hlevel, hread, hpoll,
    hmask, hsfnm, lowest_inj hlowest, hflag, heoi, hstage]

end Pic

namespace Pic8259Pair

variable {s t : Pic8259Pair}

theorem fields_of_payload (h : s.payload = t.payload) :
    s.master.canonicalFields s.master.icw3 true = t.master.canonicalFields t.master.icw3 true ∧
      s.slave.canonicalFields (s.slave.icw3 &&& 0x07#8) false =
        t.slave.canonicalFields (t.slave.icw3 &&& 0x07#8) false := by
  have hfields := List.eq_iff_flatten_eq.mpr ⟨h, rfl⟩
  exact List.append_inj hfields rfl

def RotationKept (s t : Pic8259Pair) : Prop :=
  s.master.RotationKept t.master ∧ s.slave.RotationKept t.slave

theorem view_of_payload (h : s.payload = t.payload) (hkept : s.RotationKept t) : s.view = t.view := by
  obtain ⟨hmaster, hslave⟩ := fields_of_payload h
  unfold view
  rw [(Pic.view_of_fields rfl rfl hmaster).2.2 hkept.1, (Pic.view_of_fields rfl rfl hslave).2.2 hkept.2]

end Pic8259Pair

inductive ChipOp
  | command (value : BitVec 8)
  | data (value : BitVec 8)
  | request (level : Fin 8)

namespace Pic

variable {p : Pic}

def handle (p : Pic) : ChipOp → Pic
  | .command value => p.writeCommand value
  | .data value => p.writeData value
  | .request level => p.request level

def prime : List ChipOp :=
  [.data 0x02, .data 0x02, .data 0x02] ++
    ((List.finRange 8).map fun level => .command (Pic8259Pair.specificEoi level)) ++
    [.command 0xC7, .data 0xFE, .request 0, .command 0x0C]

def again : List ChipOp := [.data 0xFC, .request 0, .request 1, .command 0x0C]

structure Polling (p : Pic) : Prop where
  init : p.init = .ready
  autoEoi : p.autoEoi = true
  sfnm : p.sfnm = false
  isr : p.isr = 0
  pollPending : p.pollPending = true

/-- With nothing in service, the first level that is requested and not masked is taken. -/
theorem resolve_idle (h : p.isr = 0) (exempt : Option (Fin 8)) (levels : List (Fin 8)) :
    p.resolve exempt levels = levels.find? fun irq : Fin 8 => hasBit (p.irr &&& ~~~p.imr) irq := by
  induction levels with
  | nil => rfl
  | cons irq rest ih =>
    have hfree : (hasBit p.isr irq && decide (exempt ≠ some irq)) = false := by
      rw [h]
      exact congrArg (· && _) (hasBit_zero irq)
    rw [resolve, hfree, if_neg (by decide), ih, List.find?_cons]
    cases hasBit (p.irr &&& ~~~p.imr) irq <;> rfl

/-- The level after the lowest is taken if it is requested. -/
theorem highestPending_first (h : p.isr = 0) (exempt : Option (Fin 8))
    (hfirst : hasBit (p.irr &&& ~~~p.imr) (p.lowest + 1 : Fin 8) = true) :
    p.highestPending exempt = some (p.lowest + 1) := by
  have hzero : p.lowest + 1 + (0 : Fin 8) = p.lowest + 1 := Fin.add_zero _
  rw [highestPending, resolve_idle h, priorityOrder, List.finRange_succ, List.map_cons, List.find?_cons]
  rw [show p.lowest + 1 + (0 : Fin (7 + 1)) = p.lowest + 1 from hzero, hfirst]

/-- In automatic EOI a level is served at once, and rotates if the flag is on. -/
theorem setInService_auto (heoi : p.autoEoi = true) (hisr : p.isr = 0) (level : Fin 8) :
    ∃ irr, p.setInService level =
      { p with irr, lowest := if p.autoRotate then level else p.lowest } := by
  have hclear : ∀ level : Fin 8, clearBit (setBit 0#8 level) level = 0#8 := by decide
  have hserved : ∃ irr, (p.served level).clearInService level = { p with irr } := by
    refine ⟨((p.served level).clearInService level).irr, ?_⟩
    have hsame : clearBit (setBit p.isr level) level = p.isr := by
      rw [hisr]
      exact hclear level
    show { p with isr := clearBit (setBit p.isr level) level, irr := _ } = { p with irr := _ }
    rw [hsame]
    rfl
  obtain ⟨irr, hform⟩ := hserved
  rw [setInService_eq, if_pos heoi, hform]
  exact ⟨irr, by split_ifs <;> rfl⟩

/-- A poll takes the first level, serves it at once, and rotates if the flag is on. -/
theorem poll_first (h : p.Polling) (hfirst : hasBit (p.irr &&& ~~~p.imr) (p.lowest + 1 : Fin 8) = true)
    (port : ℕ) : (p.readPort port none).1 = 0x80#8 ||| BitVec.ofNat 8 (p.lowest + 1 : Fin 8) ∧
      ∃ irr, (p.readPort port none).2 = { p with
        irr, pollPending := false, lowest := if p.autoRotate then p.lowest + 1 else p.lowest } := by
  have hpending : ({ p with pollPending := false }).highestPending none = some (p.lowest + 1) :=
    highestPending_first (p := { p with pollPending := false }) h.isr none hfirst
  rw [readPort, if_pos h.pollPending, poll, hpending]
  exact ⟨rfl, setInService_auto (p := { p with pollPending := false }) h.autoEoi h.isr (p.lowest + 1)⟩

theorem writeCommand_eoi (p : Pic) (level : Fin 8) :
    p.writeCommand (Pic8259Pair.specificEoi level) = p.clearInService level := by
  obtain ⟨h4, h3, hcommand, hlevel⟩ := Pic8259Pair.specificEoi_bits level
  simp [writeCommand, endOfInterrupt, h4, h3, hcommand, hlevel]

theorem exec_eoi (levels : List (Fin 8)) (p : Pic) :
    exec handle (levels.map fun level => .command (Pic8259Pair.specificEoi level)) p = p.retire levels := by
  induction levels generalizing p with
  | nil => rfl
  | cons level rest ih =>
    rw [List.map_cons, exec_cons, handle, writeCommand_eoi, ih]
    rfl

theorem retire_frame (levels : List (Fin 8)) (p : Pic) :
    ∃ isr irr, p.retire levels = { p with isr, irr } := by
  induction levels generalizing p with
  | nil => exact ⟨p.isr, p.irr, rfl⟩
  | cons level rest ih =>
    obtain ⟨isr, irr, hrest⟩ := ih (p.clearInService level)
    exact ⟨isr, irr, hrest⟩

theorem retire_all (p : Pic) : ∃ irr, p.retire (List.finRange 8) = { p with isr := 0, irr } := by
  obtain ⟨isr, irr, hform⟩ := retire_frame (List.finRange 8) p
  have hspec := (p.retire_spec 0 (List.finRange 8)).isr
  have hzero : isr = 0 := by
    apply BitVec.eq_of_getLsbD_eq
    intro j hj
    have hbit := hspec ⟨j, hj⟩
    rw [hform] at hbit
    have hoff : hasBit isr j = false := by
      rw [Bool.eq_false_iff]
      exact fun hon => (hbit.mp hon).2 (List.mem_finRange _)
    rw [← hasBit_eq hj, hoff]
    exact BitVec.getLsbD_zero.symm
  rw [hform, hzero]
  exact ⟨irr, rfl⟩

/-- The words that end an initialization with an ICW4 in it. -/
theorem writeData_armed (h : p.icw4Expected = true) : ∃ imr icw2 icw3,
    ((p.writeData 0x02).writeData 0x02).writeData 0x02 =
      { p with
        imr, icw2, icw3
        init := .ready
        autoEoi := true
        buffered := false
        isMaster := false
        sfnm := false } := by
  cases hinit : p.init with
  | ready => simp [icw4Expected, hinit] at h
  | expectIcw2 =>
    have hexpect : p.expectIcw4 = true := by simpa [icw4Expected, hinit] using h
    cases hsingle : p.single with
    | true => exact ⟨0x02, 0x02, p.icw3, by simp [writeData, hinit, hexpect, hsingle]; decide⟩
    | false => exact ⟨p.imr, 0x02, 0x02, by simp [writeData, hinit, hexpect, hsingle]; decide⟩
  | expectIcw3 =>
    have hexpect : p.expectIcw4 = true := by simpa [icw4Expected, hinit] using h
    exact ⟨0x02, p.icw2, 0x02, by simp [writeData, hinit, hexpect]; decide⟩
  | expectIcw4 => exact ⟨0x02, p.icw2, p.icw3, by simp [writeData, hinit]; decide⟩

theorem hasBit_requested (irr : BitVec 8) (level : Fin 8) : hasBit (setBit irr level) level = true := by
  rw [hasBit_setBit level.isLt level.isLt, decide_eq_true rfl, Bool.or_true]

theorem exec_prime (h : p.icw4Expected = true) : ∃ q, exec handle prime p = q ∧ q.Polling ∧
    q.lowest = 7 ∧ q.imr = 0xFE#8 ∧ hasBit q.irr 0 = true ∧ q.autoRotate = p.autoRotate := by
  obtain ⟨imr, icw2, icw3, harmed⟩ := writeData_armed h
  obtain ⟨irr, hretired⟩ := retire_all (((p.writeData 0x02).writeData 0x02).writeData 0x02)
  have hrun : exec handle prime p = exec handle [.command 0xC7, .data 0xFE, .request 0, .command 0x0C]
      ((((p.writeData 0x02).writeData 0x02).writeData 0x02).retire (List.finRange 8)) := by
    rw [prime, exec_append, exec_append, exec_eoi]
    rfl
  rw [hrun, hretired, harmed]
  refine ⟨_, rfl, ⟨rfl, rfl, rfl, rfl, rfl⟩, rfl, rfl, ?_, rfl⟩
  exact hasBit_requested irr 0

theorem exec_again (hready : p.init = .ready) : ∃ irr, exec handle again p =
    { p with irr, imr := 0xFC#8, pollPending := true } ∧ hasBit irr 0 = true ∧ hasBit irr 1 = true := by
  have hdata : p.writeData 0xFC = { p with imr := 0xFC#8 } := by
    rw [writeData, hready]
    rfl
  refine ⟨setBit (setBit p.irr (0 : Fin 8)) (1 : Fin 8), ?_, ?_, hasBit_requested _ 1⟩
  · rw [again, exec_cons, handle, hdata]
    rfl
  · have hzero : hasBit (setBit p.irr (0 : Fin 8)) 0 = true := hasBit_requested p.irr 0
    rw [hasBit_setBit (by decide) (by decide), hzero]
    rfl

end Pic

namespace Pic8259Pair

def chip (s : Pic8259Pair) (m : Bool) : Pic := if m then s.master else s.slave

variable (m : Bool)

def commandPort : ℕ := if m then 0x20 else 0xA0

def chipEvent : ChipOp → Event
  | .command value => .writePort (commandPort m) value
  | .data value => .writePort (commandPort m + 1) value
  | .request level => .request (if m then level else 8 + level)

theorem writeSlave_slave (s : Pic8259Pair) (port : ℕ) (value : BitVec 8) :
    (s.writeSlave port value).slave = s.slave.writePort port value := by
  unfold writeSlave
  dsimp only
  split_ifs <;> rfl

theorem chip_step (op : ChipOp) (s : Pic8259Pair) :
    (s.step (chipEvent m op)).chip m = (s.chip m).handle op := by
  cases m with
  | true =>
    cases op with
    | command | data => rfl
    | request level =>
      show (s.request level).master = s.master.request level
      rw [request, dif_pos level.isLt]
  | false =>
    cases op with
    | command value => exact s.writeSlave_slave 0xA0 value
    | data value => exact s.writeSlave_slave 0xA1 value
    | request level =>
      show (s.request (8 + level)).slave = s.slave.request level
      rw [request_slave]

theorem chip_exec (ops : List ChipOp) (s : Pic8259Pair) :
    (exec step (ops.map (chipEvent m)) s).chip m = exec Pic.handle ops (s.chip m) := by
  induction ops generalizing s with
  | nil => rfl
  | cons op rest ih => rw [List.map_cons, exec_cons, exec_cons, ih, chip_step]

/-- A read of a chip that has no cascade to exempt. -/
theorem chip_read {s : Pic8259Pair} (hsfnm : (s.chip m).sfnm = false) :
    (s.readPort (commandPort m)).1 = some ((s.chip m).readPort (commandPort m) none).1 ∧
      (s.readPort (commandPort m)).2.chip m = ((s.chip m).readPort (commandPort m) none).2 := by
  cases m with
  | true =>
    have hexempt : s.masterCascadeExempt = none := by
      rw [masterCascadeExempt, show s.master.sfnm = false from hsfnm]
      rfl
    rw [readPort, hexempt]
    exact ⟨rfl, rfl⟩
  | false => exact ⟨rfl, rfl⟩

def rotationProbe : List Event :=
  Pic.prime.map (chipEvent m) ++ .readPort (commandPort m) :: Pic.again.map (chipEvent m)

/-- The second poll finds IR1 after a rotation and IR0 without. -/
theorem rotationProbe_read {s : Pic8259Pair} (h : (s.chip m).icw4Expected = true) :
    ((exec step (rotationProbe m) s).readPort (commandPort m)).1 =
      some (if (s.chip m).autoRotate then 0x81#8 else 0x80#8) := by
  obtain ⟨q, hprime, hpolling, hlowest, himr, hirr, hrotate⟩ := Pic.exec_prime h
  obtain ⟨u, hu⟩ : ∃ u, u = exec step (Pic.prime.map (chipEvent m)) s := ⟨_, rfl⟩
  have hchip : u.chip m = q := by rw [hu, chip_exec, hprime]
  -- the first poll takes IR0
  have hfirst : hasBit (q.irr &&& ~~~q.imr) (q.lowest + 1 : Fin 8) = true := by
    rw [hlowest, himr, hasBit_andNot (by decide), show ((7 + 1 : Fin 8) : ℕ) = 0 from rfl, hirr]
    rfl
  obtain ⟨-, irr, hpolled⟩ := Pic.poll_first hpolling hfirst (commandPort m)
  have hread := (chip_read m (s := u) (by rw [hchip]; exact hpolling.sfnm)).2
  rw [hchip, hpolled] at hread
  -- IR0 and IR1 are asked for again
  obtain ⟨v, hv⟩ : ∃ v, v = exec step (rotationProbe m) s := ⟨_, rfl⟩
  have hrun : v = exec step (Pic.again.map (chipEvent m)) (u.readPort (commandPort m)).2 := by
    rw [hv, rotationProbe, exec_append, exec_cons, hu]
    rfl
  obtain ⟨irr', hagain, hzero, hone⟩ := Pic.exec_again (p := (u.readPort (commandPort m)).2.chip m)
    (by rw [hread]; exact hpolling.init)
  have hlast : v.chip m = { q with
      irr := irr', imr := 0xFC#8, pollPending := true,
      lowest := if q.autoRotate then q.lowest + 1 else q.lowest } := by
    rw [hrun, chip_exec, hagain, hread]
  have hready : (v.chip m).Polling := by
    rw [hlast]
    exact { hpolling with pollPending := rfl }
  have hnext : ((v.chip m).lowest + 1 : Fin 8) = if (s.chip m).autoRotate then 1 else 0 := by
    rw [hlast, ← hrotate]
    dsimp only
    rw [hlowest]
    split_ifs <;> rfl
  have hwanted : hasBit ((v.chip m).irr &&& ~~~(v.chip m).imr) ((v.chip m).lowest + 1 : Fin 8) = true := by
    rw [hnext, hlast, hasBit_andNot (Fin.isLt _)]
    dsimp only
    split_ifs
    · rw [show ((1 : Fin 8) : ℕ) = 1 from rfl, hone]
      rfl
    · rw [show ((0 : Fin 8) : ℕ) = 0 from rfl, hzero]
      rfl
  rw [← hv, (chip_read m hready.sfnm).1, (Pic.poll_first hready hwanted (commandPort m)).1, hnext]
  split_ifs <;> rfl

/-- Pairs of one payload: every run of port reads and writes, requests, line changes, polls and
acknowledges gets the same answers from both exactly if, of each chip whose automatic EOI is off with an
ICW4 still to come, the rotation flags agree. -/
theorem payload_decides_iff {s t : Pic8259Pair} (h : s.payload = t.payload) :
    (∀ accesses, answers access accesses s = answers access accesses t) ↔ s.RotationKept t := by
  constructor
  · intro hsame
    obtain ⟨hmaster, hslave⟩ := fields_of_payload h
    have hshown (m : Bool) (hicw4 : (s.chip m).icw4Expected = true)
        (hicw4' : (t.chip m).icw4Expected = true) : (s.chip m).autoRotate = (t.chip m).autoRotate := by
      have hexec (u : Pic8259Pair) : exec (fun u a => (access u a).2) ((rotationProbe m).map .event) u =
          exec step (rotationProbe m) u := List.foldl_map ..
      have hpoll := answer_of_answers hsame ((rotationProbe m).map .event)
        (.event (.readPort (commandPort m)))
      rw [hexec, hexec] at hpoll
      have hbyte := Answer.byte.inj hpoll
      rw [rotationProbe_read m hicw4, rotationProbe_read m hicw4'] at hbyte
      revert hbyte
      cases (s.chip m).autoRotate <;> cases (t.chip m).autoRotate <;> decide
    have hmaster' := (Pic.view_of_fields (m := true) rfl rfl hmaster).1
    have hslave' := (Pic.view_of_fields (m := false) rfl rfl hslave).1
    refine ⟨fun _ hicw4 => ?_, fun _ hicw4 => ?_⟩
    · exact hshown true hicw4 (hmaster'.symm.trans hicw4)
    · exact hshown false hicw4 (hslave'.symm.trans hicw4)
  · intro hkept accesses
    exact view_decides.answers_eq accesses (view_of_payload h hkept)

/-- A rotation flag set with the initialization over and automatic EOI off. -/
theorem rotation_out_of_use :
    let s := exec step (atInit 0x01 ++ [.writePort 0x20 0x80]) initial
    let t := exec step (atInit 0x01) initial
    s.master.autoRotate ≠ t.master.autoRotate ∧
      answers access ((rotationProbe true).map .event) s =
        answers access ((rotationProbe true).map .event) t :=
  ⟨by decide, (payload_decides_iff (by decide)).mpr
    ⟨fun _ hicw4 => absurd hicw4 (by decide), fun _ hicw4 => absurd hicw4 (by decide)⟩ _⟩

/-- The master has had its ICW1, ICW2 and ICW3, and one of the two also the OCW2 that turns rotation in
automatic EOI on. The payloads are equal. Once ICW4 turns automatic EOI on, IR0 and IR1 are
acknowledged in another order after the first IR0. -/
theorem rotation_dropped :
    let words : List Event := [.writePort 0x20 0x11, .writePort 0x21 0x08, .writePort 0x21 0x04]
    let s := exec step (words ++ [.writePort 0x20 0x80]) initial
    let t := exec step words initial
    let more : List Access := [.event (.writePort 0x21 0x03), .event (.request 0), .event .acknowledge,
      .event (.request 0), .event (.request 1), .event .acknowledge]
    s.payload = t.payload ∧
      answers access more s = [.accepted true, .done, .vector (some (0x08#8, 0)), .done, .done,
        .vector (some (0x09#8, 1))] ∧
      answers access more t = [.accepted true, .done, .vector (some (0x08#8, 0)), .done, .done,
        .vector (some (0x08#8, 0))] := by
  decide

end Pic8259Pair

end IzarraVM.Interrupts
