import IzarraVM.PitLatches

/-! The canonical payload of the 8254: chips of one payload answer every access alike. -/
namespace IzarraVM.Timer

open Canonical ClockTrace Views

namespace Counter

variable {c d : Counter} {n : ℕ}

def canonical (c : Counter) : Counter := c.portView.coreView

theorem views_commute (c : Counter) : c.coreView.portView = c.portView.coreView := rfl

theorem canonical_canonical (c : Counter) : c.canonical.canonical = c.canonical := by
  unfold canonical
  rw [views_commute, portView_portView, coreView_coreView]

/-- An operation that the view of the counting and the view of the ports both respect. -/
theorem respects_canonical {f : Counter → Counter} (hcore : Respects coreView f)
    (hport : Respects portView f) : Respects canonical f :=
  show Respects (fun c => coreView (portView c)) f from Respects.comp views_commute hcore hport

theorem blind_canonical {α : Type} {see : Counter → α} (hcore : Blind coreView see)
    (hport : Blind portView see) : Blind canonical see :=
  show Blind (fun c => coreView (portView c)) see from Blind.comp hcore hport

theorem step_respects : Respects canonical fun c : Counter => c.step.1 := by
  refine respects_canonical (fun c => c.step_coreView.1)
    (Respects.of_commutes portView_portView fun c => ?_)
  rw [step_portView]

theorem step_blind : Blind canonical fun c : Counter => c.step.2 := by
  refine blind_canonical (fun c => c.step_coreView.2) fun c => ?_
  rw [step_portView]

theorem setGate_respects (level : Bool) : Respects canonical fun c => c.setGate level :=
  respects_canonical (fun c => c.setGate_coreView level)
    (Respects.of_commutes portView_portView fun c => c.setGate_portView level)

theorem writeCount_respects (value : UInt8) : Respects canonical fun c => c.writeCount value :=
  respects_canonical (fun c => c.writeCount_coreView value) fun c => c.writeCount_portView value

section Instants

variable (hn : n < 2 ^ 64)

include hn

theorem latchCount_respects : Respects canonical fun c => c.latchCount n :=
  respects_canonical (Respects.of_commutes coreView_coreView fun c => c.latchCount_coreView hn)
    fun c => c.latchCount_portView n

theorem writeControl_respects (value : UInt8) : Respects canonical fun c => c.writeControl value n :=
  respects_canonical (fun c => c.writeControl_coreView value hn) fun c => c.writeControl_portView value n

theorem read_respects : Respects canonical fun c => (c.read n).2 := by
  refine respects_canonical (Respects.of_commutes coreView_coreView fun c => ?_)
    fun c => (c.read_portView n).2
  rw [read_coreView c hn]

theorem read_blind : Blind canonical fun c => (c.read n).1 := by
  refine blind_canonical (fun c => ?_) fun c => (c.read_portView n).1
  rw [read_coreView c hn]

end Instants

theorem latchStatus_respects (n : ℕ) : Respects canonical fun c => c.latchStatus n :=
  respects_canonical (Respects.of_commutes coreView_coreView fun c => c.latchStatus_coreView n)
    (Respects.of_commutes portView_portView fun c => c.latchStatus_portView n)

theorem readBack_respects (value : UInt8) (hn : n < 2 ^ 64) :
    Respects canonical fun c => c.readBack value n := by
  have hcount : Respects canonical fun c => if value &&& 0x20 = 0 then c.latchCount n else c := by
    split_ifs
    · exact latchCount_respects hn
    · exact canonical_canonical
  have hstatus : Respects canonical fun c => if value &&& 0x10 = 0 then c.latchStatus n else c := by
    split_ifs
    · exact latchStatus_respects n
    · exact canonical_canonical
  exact hcount.andThen hstatus

theorem outAfter_blind (n : ℕ) : Blind canonical fun c => c.outAfter n :=
  blind_canonical (fun c => c.outAfter_coreView n) fun _ => rfl

theorem clocksUntilOutRise_blind : Blind canonical clocksUntilOutRise :=
  blind_canonical clocksUntilOutRise_coreView fun _ => rfl

/-! No access but a control word changes the mode. -/

variable (c)

theorem step_mode : c.step.1.mode = c.mode := by
  obtain ⟨_, _, _, _, hform, -⟩ := c.step_frame
  rw [hform]

theorem run_mode (n : ℕ) : (run step c n).1.mode = c.mode := by
  induction n with
  | zero => rfl
  | succ n ih => exact (step_mode _).trans ih

theorem setGate_mode (level : Bool) : (c.setGate level).mode = c.mode := by
  obtain ⟨hform, -⟩ | ⟨-, hform⟩ | ⟨-, hform⟩ | ⟨-, -, hform⟩ | ⟨-, hform⟩ := c.setGate_cases level
  all_goals rw [hform]

theorem mode_of_live {c : Counter} (h : d.live = c.live) : d.mode = c.mode := congrArg Prod.fst h

theorem read_mode (n : ℕ) : (c.read n).2.mode = c.mode := mode_of_live (c.read_live n)

theorem readBack_mode (value : UInt8) (n : ℕ) : (c.readBack value n).mode = c.mode := by
  unfold readBack
  dsimp only
  split_ifs
  · exact (mode_of_live (latchStatus_live _ n)).trans (mode_of_live (c.latchCount_live n))
  · exact mode_of_live (c.latchStatus_live n)
  · exact mode_of_live (c.latchCount_live n)
  · rfl

theorem writeCount_mode (value : UInt8) : (c.writeCount value).mode = c.mode := by
  unfold writeCount
  cases c.rw with
  | lsb | msb => rfl
  | lsbThenMsb =>
    dsimp only
    split_ifs <;> rfl

variable {c}

theorem writeControl_mode (value : UInt8) (n : ℕ) (h : c.mode ≤ 5) :
    (c.writeControl value n).mode ≤ 5 := by
  unfold writeControl
  dsimp only
  split_ifs with hlatch
  · exact (mode_of_live (c.latchCount_live n)).symm ▸ h
  all_goals
    have hfield : ((value >>> 1) &&& 0x7).toNat ≤ 7 := by
      rw [UInt8.toNat_and]
      exact Nat.and_le_right
    generalize ((value >>> 1) &&& 0x7).toNat = field at hfield ⊢
    -- only the two aliases are above mode 5
    dsimp only
    interval_cases field <;> decide

theorem out_blind : Blind canonical Counter.out := fun _ => rfl

theorem bcd_blind : Blind canonical Counter.bcd := fun _ => rfl

/-- Any number of clocks, and the edges among them. -/
theorem run_canonical (c : Counter) (n : ℕ) :
    (run step c.canonical n).1.canonical = (run step c n).1.canonical ∧
      (run step c.canonical n).2 = (run step c n).2 := by
  induction n with
  | zero => exact ⟨c.canonical_canonical, rfl⟩
  | succ n ih =>
    refine ⟨step_respects.congr ih.1, ?_⟩
    change (run step c.canonical n).2 + ((run step c.canonical n).1.step.2).toNat =
      (run step c n).2 + ((run step c n).1.step.2).toNat
    rw [ih.2, step_blind.congr ih.1]

theorem firstRise_canonical (limit : ℕ) :
    ∀ {c d : Counter}, c.canonical = d.canonical → c.firstRise limit = d.firstRise limit := by
  induction limit with
  | zero => exact fun _ => rfl
  | succ limit ih =>
    intro c d h
    rw [firstRise, firstRise, step_blind.congr h, ih (step_respects.congr h)]

theorem rwModeTag_inj {rw rw' : RwMode} (h : rwModeTag rw = rwModeTag rw') : rw = rw' := by
  cases rw <;> cases rw' <;> first | rfl | exact absurd h (by decide)

theorem settled_of_tag {state state' : CounterState} (h : counterStateTag state = counterStateTag state') :
    state.settled = state'.settled := by
  cases state <;> cases state' <;> first | rfl | exact absurd h (by decide)

/-- An optional field, present or blank. -/
theorem optional_inj {α β : Type} {blank : β} {f g : α → β} {x y : Option α}
    (hpresent : ((x.map fun v => (true, f v)).getD (false, blank)).1 =
      ((y.map fun v => (true, g v)).getD (false, blank)).1)
    (hvalue : ((x.map fun v => (true, f v)).getD (false, blank)).2 =
      ((y.map fun v => (true, g v)).getD (false, blank)).2) : x.map f = y.map g := by
  cases x with
  | none =>
    cases y with
    | none => rfl
    | some b => cases hpresent
  | some a =>
    cases y with
    | none => cases hpresent
    | some b => exact congrArg some hvalue

theorem canonicalLatch_eq (c : Counter) : c.canonicalLatch =
    (c.latch.map fun value => (true, c.unreadBytes value)).getD (false, 0) := by
  unfold canonicalLatch
  cases c.latch <;> rfl

/-- Counters with equal fields in the payload have one view. -/
theorem canonical_of_fields (hmode : c.mode < 256) (hmode' : d.mode < 256)
    (h : c.canonicalFields = d.canonicalFields) : c.canonical = d.canonical := by
  simp only [canonicalFields, List.cons.injEq, writeU8_inj, writeBool_inj, writeU16_inj, writeU32_inj,
    and_true, canonicalLatch_eq] at h
  obtain ⟨hm, hrw, hbcd, hcount, hreload, hout, hgate, hstate, hnull, hpresent, hlatch, hstatus,
    hbyte, hwrite, hread⟩ := h
  have hm' : c.mode = d.mode := by
    have := congrArg UInt8.toNat hm
    rwa [UInt8.toNat_ofNat_of_lt' hmode, UInt8.toNat_ofNat_of_lt' hmode'] at this
  have hlatch' := optional_inj hpresent hlatch
  have hstatus' := optional_inj (f := id) (g := id) hstatus hbyte
  have hview (e : Counter) : e.canonical = ⟨e.mode, e.rw, e.bcd, e.canonicalCount, e.reload, e.out, e.gate,
      e.state.settled, e.nullCount, e.latch.map e.unreadBytes, e.statusLatch,
      e.dualByte && e.writeMsbNext, e.dualByte && e.readMsbNext⟩ := rfl
  rw [Option.map_id] at hstatus'
  change c.statusLatch = d.statusLatch at hstatus'
  rw [hview, hview, hm', rwModeTag_inj hrw, hbcd, hcount, hreload, hout, hgate, settled_of_tag hstate,
    hnull, hlatch', hstatus', hwrite, hread]

end Counter

inductive Access
  | writePort (port : UInt16) (value : UInt8) (clocks : UInt64)
  | readPort (port : UInt16) (clocks : UInt64)
  | setGate (channel : ℕ) (level : Bool)
  | tick (clocks : UInt64) (watchChannel : Option ℕ) (bulk : Bool)
  | channelOut (channel : ℕ)
  | outAfter (channel : ℕ) (clocks : UInt64)
  | clocksUntilOutRise (channel : ℕ)
  | clocksUntilChannel0Irq
  | counterIsBcd (port : UInt16)

inductive Answer
  | done
  | accepted (known : Bool)
  | byte (value : Option UInt8)
  | ticked (edges : UInt32) (transitions : List (ℕ × Bool))
  | level (out : Bool)
  | levelAfter (out : Option Bool)
  | clocks (count : Option ℕ)
  | decimal (bcd : Bool)
  deriving DecidableEq

namespace Pit

def access (pit : Pit) : Access → Answer × Pit
  | .writePort port value clocks =>
    (.accepted (pit.writePortAt port value clocks.toNat).1, (pit.writePortAt port value clocks.toNat).2)
  | .readPort port clocks =>
    (.byte (pit.readPortAt port clocks.toNat).1, (pit.readPortAt port clocks.toNat).2)
  | .setGate channel level => (.done, pit.setGate channel level)
  | .tick clocks watchChannel bulk =>
    let advanced := pit.tickWithObserver clocks.toNat watchChannel bulk
    (.ticked advanced.edges advanced.transitions, advanced.pit)
  | .channelOut channel => (.level (pit.channelOut channel), pit)
  | .outAfter channel clocks => (.levelAfter (pit.outAfter channel clocks.toNat), pit)
  | .clocksUntilOutRise channel => (.clocks (pit.clocksUntilOutRise channel), pit)
  | .clocksUntilChannel0Irq => (.clocks pit.clocksUntilChannel0Irq, pit)
  | .counterIsBcd port => (.decimal (pit.counterIsBcd port), pit)

def canonical (pit : Pit) : Pit := ⟨pit.counters.map Counter.canonical⟩

variable {pit : Pit}

theorem canonical_getElem? (pit : Pit) (channel : ℕ) :
    pit.canonical.counters[channel]? = (pit.counters[channel]?).map Counter.canonical :=
  Vector.getElem?_map ..

theorem canonical_canonical (pit : Pit) : pit.canonical.canonical = pit.canonical := by
  unfold canonical
  rw [Vector.map_map]
  exact congrArg Pit.mk (Vector.map_congr_left fun c _ => c.canonical_canonical)

/-- Accesses to the counters one by one. -/
theorem mapIdx_respects {f : ℕ → Counter → Counter} (hf : ∀ i, Respects Counter.canonical (f i)) :
    Respects canonical fun pit => ⟨pit.counters.mapIdx f⟩ := by
  intro pit
  unfold canonical
  congr 1
  apply Vector.ext
  intro i hi
  simp only [Vector.getElem_map, Vector.getElem_mapIdx]
  exact hf i _

theorem onChannel_respects (channel : ℕ) {f : Counter → Counter} (hf : Respects Counter.canonical f) :
    Respects canonical fun pit => pit.onChannel channel f := by
  refine mapIdx_respects fun i c => ?_
  split_ifs
  · exact hf c
  · exact c.canonical_canonical

/-- What one counter of the chip shows, if it is there. -/
theorem channel_bind_blind {α : Type} (channel : ℕ) {see : Counter → Option α}
    (hsee : Blind Counter.canonical see) : Blind canonical fun pit => (pit.counters[channel]?).bind see := by
  intro pit
  dsimp only
  rw [canonical_getElem?]
  cases pit.counters[channel]? with
  | none => rfl
  | some c => exact hsee c

theorem channel_blind {α : Type} (channel : ℕ) {see : Counter → α} (hsee : Blind Counter.canonical see) :
    Blind canonical fun pit => (pit.counters[channel]?).map see := by
  intro pit
  dsimp only
  rw [canonical_getElem?]
  cases pit.counters[channel]? with
  | none => rfl
  | some c => exact congrArg some (hsee c)

theorem writeControlWord_respects (value : UInt8) {n : ℕ} (hn : n < 2 ^ 64) :
    Respects canonical fun pit => pit.writeControlWord value n := by
  intro pit
  unfold writeControlWord
  dsimp only
  split_ifs with hback hnone
  · exact pit.canonical_canonical
  · refine mapIdx_respects (fun i c => ?_) pit
    split_ifs
    · exact Counter.readBack_respects value hn c
    · exact c.canonical_canonical
  · exact onChannel_respects _ (Counter.writeControl_respects hn value) pit

theorem after_canonical (pit : Pit) (n : ℕ) : (pit.canonical.after n).canonical = (pit.after n).canonical := by
  unfold canonical after
  rw [Vector.map_map, Vector.map_map, Vector.map_map]
  exact congrArg Pit.mk (Vector.map_congr_left fun c _ => (c.run_canonical n).1)

theorem channelOut_blind (channel : ℕ) : Blind canonical fun pit => pit.channelOut channel := by
  intro pit
  exact congrArg (Option.getD · false) (channel_blind channel Counter.out_blind pit)

/-- The analytic advance and the loop do the same, so the advance is the loop. -/
theorem tickWithObserver_eq (pit : Pit) (clocks : ℕ) (watchChannel : Option ℕ) (bulk : Bool) :
    pit.tickWithObserver clocks watchChannel bulk = pit.loopAdvance clocks watchChannel := by
  unfold tickWithObserver
  split_ifs with hzero hbulk
  · rw [hzero]
    rfl
  · exact bulkAdvance_eq_loopAdvance pit clocks watchChannel hbulk.2
  · rfl

theorem tick_canonical (pit : Pit) (clocks : ℕ) (watchChannel : Option ℕ) (bulk : Bool) :
    (pit.canonical.tickWithObserver clocks watchChannel bulk).edges =
        (pit.tickWithObserver clocks watchChannel bulk).edges ∧
      (pit.canonical.tickWithObserver clocks watchChannel bulk).transitions =
        (pit.tickWithObserver clocks watchChannel bulk).transitions ∧
      (pit.canonical.tickWithObserver clocks watchChannel bulk).pit.canonical =
        (pit.tickWithObserver clocks watchChannel bulk).pit.canonical := by
  have hzero : pit.canonical.first = pit.first.canonical := Vector.getElem_map ..
  have hseen : pit.canonical.seen watchChannel clocks = pit.seen watchChannel clocks := by
    cases watchChannel with
    | none => rfl
    | some channel =>
      apply changes_congr
      intro t _
      exact (channelOut_blind channel).congr (pit.after_canonical t)
  rw [tickWithObserver_eq, tickWithObserver_eq, loopAdvance_eq, loopAdvance_eq]
  refine ⟨?_, hseen, pit.after_canonical clocks⟩
  dsimp only
  rw [hzero, (pit.first.run_canonical clocks).2]

/-- No access tells a chip from its view. -/
theorem access_canonical (pit : Pit) (a : Access) :
    (pit.canonical.access a).1 = (pit.access a).1 ∧
      (pit.canonical.access a).2.canonical = (pit.access a).2.canonical := by
  have hidle := pit.canonical_canonical
  cases a with
  | writePort port value clocks =>
    unfold access writePortAt
    dsimp only
    split_ifs with hcount hcontrol
    · exact ⟨rfl, onChannel_respects _ (Counter.writeCount_respects value) pit⟩
    · exact ⟨rfl, writeControlWord_respects value clocks.toNat_lt pit⟩
    · exact ⟨rfl, hidle⟩
  | readPort port clocks =>
    unfold access readPortAt
    dsimp only
    split_ifs with hport
    · exact ⟨congrArg Answer.byte (channel_blind _ (Counter.read_blind clocks.toNat_lt) pit),
        onChannel_respects _ (Counter.read_respects clocks.toNat_lt) pit⟩
    · exact ⟨rfl, hidle⟩
  | setGate channel level => exact ⟨rfl, onChannel_respects channel (Counter.setGate_respects level) pit⟩
  | tick clocks watchChannel bulk =>
    obtain ⟨hedges, htransitions, hnext⟩ := pit.tick_canonical clocks.toNat watchChannel bulk
    refine ⟨?_, hnext⟩
    unfold access
    dsimp only
    rw [hedges, htransitions]
  | channelOut channel => exact ⟨congrArg Answer.level (channelOut_blind channel pit), hidle⟩
  | outAfter channel clocks =>
    exact ⟨congrArg Answer.levelAfter (channel_bind_blind channel (Counter.outAfter_blind _) pit), hidle⟩
  | clocksUntilOutRise channel =>
    exact ⟨congrArg Answer.clocks (channel_bind_blind channel Counter.clocksUntilOutRise_blind pit), hidle⟩
  | clocksUntilChannel0Irq =>
    refine ⟨congrArg Answer.clocks ?_, hidle⟩
    have hzero : pit.canonical.first = pit.first.canonical := Vector.getElem_map ..
    unfold clocksUntilChannel0Irq
    rw [hzero, Counter.firstRise_canonical _ pit.first.canonical_canonical]
  | counterIsBcd port =>
    refine ⟨congrArg Answer.decimal ?_, hidle⟩
    unfold counterIsBcd
    split_ifs with hport
    · exact congrArg (Option.getD · false) (channel_blind _ Counter.bcd_blind pit)
    · rfl

theorem canonical_decides : Decides access canonical :=
  decides_of_normal (fun a pit => (pit.access_canonical a).1) fun a pit => (pit.access_canonical a).2

def Moded (pit : Pit) : Prop := ∀ c ∈ pit.counters, c.mode ≤ 5

theorem moded_mapIdx {f : ℕ → Counter → Counter} (hf : ∀ i c, c.mode ≤ 5 → (f i c).mode ≤ 5)
    (h : pit.Moded) : Pit.Moded ⟨pit.counters.mapIdx f⟩ := by
  intro c hc
  obtain ⟨i, hi, rfl⟩ := Vector.mem_iff_getElem.mp hc
  rw [Vector.getElem_mapIdx]
  exact hf i _ (h _ (Vector.getElem_mem hi))

theorem moded_onChannel (channel : ℕ) {f : Counter → Counter} (hf : ∀ c, c.mode ≤ 5 → (f c).mode ≤ 5)
    (h : pit.Moded) : (pit.onChannel channel f).Moded := by
  refine moded_mapIdx (fun i c hc => ?_) h
  split_ifs
  · exact hf c hc
  · exact hc

theorem Moded.access (h : pit.Moded) (a : Access) : (pit.access a).2.Moded := by
  cases a with
  | writePort port value clocks =>
    unfold Pit.access writePortAt
    dsimp only
    split_ifs with hcount hcontrol
    · exact moded_onChannel _ (fun c hc => (c.writeCount_mode value).symm ▸ hc) h
    · unfold writeControlWord
      dsimp only
      split_ifs with hback hnone
      · exact h
      · refine moded_mapIdx (fun i c hc => ?_) h
        split_ifs
        · exact (c.readBack_mode value _).symm ▸ hc
        · exact hc
      · exact moded_onChannel _ (fun c hc => Counter.writeControl_mode value _ hc) h
    · exact h
  | readPort port clocks =>
    unfold Pit.access readPortAt
    dsimp only
    split_ifs with hport
    · exact moded_onChannel _ (fun c hc => (c.read_mode _).symm ▸ hc) h
    · exact h
  | setGate channel level => exact moded_onChannel channel (fun c hc => (c.setGate_mode level).symm ▸ hc) h
  | tick clocks watchChannel bulk =>
    unfold Pit.access
    dsimp only
    rw [tickWithObserver_eq, loopAdvance_eq]
    intro c hc
    obtain ⟨d, hd, rfl⟩ := Vector.mem_map.mp hc
    exact (d.run_mode clocks.toNat).symm ▸ h d hd
  | channelOut | outAfter | clocksUntilOutRise | clocksUntilChannel0Irq | counterIsBcd => exact h

def used (accesses : List Access) : Pit := Runs.exec (fun pit a => (access pit a).2) accesses powerOn

theorem moded_used (accesses : List Access) : (used accesses).Moded := by
  have hpower : powerOn.Moded := by
    intro c hc
    obtain ⟨i, hi, rfl⟩ := Vector.mem_iff_getElem.mp hc
    clear hc
    revert i
    decide
  exact List.foldlRecOn accesses _ hpower fun pit h a _ => h.access a

theorem canonical_of_payload {pit' : Pit} (hmode : pit.Moded) (hmode' : pit'.Moded)
    (h : pit.payload = pit'.payload) : pit.canonical = pit'.canonical := by
  have hwidths (c : Counter) : c.canonicalFields.map List.length =
      [1, 1, 1, 4, 2, 1, 1, 1, 1, 1, 2, 1, 1, 1, 1] := rfl
  have hcounters := records_eq_of_payload hwidths
    (pit.counters.length_toList.trans pit'.counters.length_toList.symm) h
  unfold canonical
  congr 1
  apply Vector.ext
  intro i hi
  rw [Vector.getElem_map, Vector.getElem_map]
  have hone := congrArg (·[i]?) hcounters
  simp only [List.getElem?_map, Vector.getElem?_toList, Vector.getElem?_eq_getElem hi, Option.map_some,
    Option.some.injEq] at hone
  have hbound := hmode _ (Vector.getElem_mem hi)
  have hbound' := hmode' _ (Vector.getElem_mem hi)
  exact Counter.canonical_of_fields (by omega) (by omega) hone

/-- Chips that accesses lead to from power-on, with equal payloads: every run of port reads and writes,
GATE changes, clocks and peeks gets the same answers from both. -/
theorem payload_decides (accesses accesses' : List Access)
    (h : (used accesses).payload = (used accesses').payload) (more : List Access) :
    answers access more (used accesses) = answers access more (used accesses') :=
  canonical_decides.answers_eq more
    (canonical_of_payload (moded_used accesses) (moded_used accesses') h)

/-- A one-shot that is over: its element has gone round, and is the same as far as a read sees. -/
theorem spent_alike :
    let program : List Access := [.writePort 0x43 0x10 0, .writePort 0x40 1 0]
    let more : List Access := [.tick 40 (some 1) true, .readPort 0x40 3, .clocksUntilOutRise 0]
    used (program ++ [.tick 100 none true]) ≠ used (program ++ [.tick 589924 none true]) ∧
      answers access more (used (program ++ [.tick 100 none true])) =
        answers access more (used (program ++ [.tick 589924 none true])) :=
  ⟨by decide +kernel, payload_decides _ _ (by decide +kernel) _⟩

end Pit

end IzarraVM.Timer
