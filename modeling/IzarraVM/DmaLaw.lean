import IzarraVM.DmaCycles
import IzarraVM.StepRuns

/-! The block transfer law: a programmed channel moves the units of its block in order. -/
namespace IzarraVM.Dma

inductive Op where
  | readByte
  | readWord
  | writeByte (byte : UInt8)
  | writeWord (word : UInt16)
  | verify
  deriving DecidableEq, Repr

namespace Op

def kind : Op → BitVec 8
  | readByte | readWord => 2
  | writeByte _ | writeWord _ => 1
  | verify => 0

def width : Op → Side → Option Width
  | readByte, _ | writeByte _, _ => some .byte
  | readWord, .slave | writeWord _, .slave => some .word
  | readWord, .master | writeWord _, .master => none
  | verify, .master => some .byte
  | verify, .slave => some .word

end Op

inductive Reply where
  | byte (value : UInt8)
  | word (value : UInt16)
  | address (value : ℕ)
  | done
  | copied (bytes : ℕ)
  deriving DecidableEq, Repr

structure State where
  controller : Controller
  memory : Memory

inductive Event where
  | request (line : Line) (op : Op)
  | memToMem
  deriving DecidableEq, Repr

def State.after {α : Type} (reply : α → Reply) :
    Option α × Controller × Memory → Option Reply × State
  | (value, controller, memory) => (value.map reply, ⟨controller, memory⟩)

variable (s : State)

def State.step : Event → Option Reply × State
  | .request line .readByte => after .byte (s.controller.readByte line s.memory)
  | .request line .readWord => after .word (s.controller.readWord line s.memory)
  | .request line (.writeByte byte) => after .address (s.controller.writeByte line byte s.memory)
  | .request line (.writeWord word) =>
    after (fun _ => .done) (s.controller.writeWord line word s.memory)
  | .request line .verify => after (fun _ => .done) (s.controller.verify line s.memory)
  | .memToMem => after .copied (s.controller.memToMem s.memory)

namespace Op

def Inside (m : Memory) (address : ℕ) : Op → Prop
  | readByte | writeByte _ => address < m.len
  | readWord | writeWord _ => address + 1 < m.len
  | verify => True

def Moved (address : ℕ) (m : Memory) (reply : Option Reply) (m' : Memory) : Op → Prop
  | readByte => reply = (m.readU8 address).map .byte ∧ m' = m
  | readWord => ∃ lo hi, m.readU8 address = some lo ∧ m.readU8 (address + 1) = some hi ∧
      reply = some (.word (UInt16.ofNat (lo.toNat + 2 ^ 8 * hi.toNat))) ∧ m' = m
  | writeByte byte => reply = some (.address address) ∧ m.writeU8 address byte = some m'
  | writeWord word => reply = some .done ∧
      ((m.writeU8 address word.toUInt8).bind
        fun m => m.writeU8 (address + 1) (word >>> 8).toUInt8) = some m'
  | verify => reply = some .done ∧ m' = m

end Op

structure Served (s : State) (line : Line) (op : Op) (width : Width)
    (r : Option Reply × State) : Prop where
  cycled : (s.controller.chip line.side).Cycled (r.2.controller.chip line.side) line.ci r.1.isSome
  otherChip : ∀ side, side ≠ line.side → r.2.controller.chip side = s.controller.chip side
  len : r.2.memory.len = s.memory.len
  moved : r.1.isSome → op.Moved ((s.controller.channel line).unitAddress width) s.memory r.1
    r.2.memory
  kind : r.1.isSome → (s.controller.channel line).transferKind = op.kind
  completes : (s.controller.chip line.side).controllerDisabled = false →
    (s.controller.channel line).mask = false → (s.controller.channel line).transferMode ≠ 3 →
    (s.controller.channel line).transferKind = op.kind →
    op.Inside s.memory ((s.controller.channel line).unitAddress width) → r.1.isSome

namespace Controller

variable (d : Controller)

theorem chip_setChip_self (side : Side) (chip : Chip) : (d.setChip side chip).chip side = chip := by
  cases side <;> rfl

theorem chip_setChip_ne {side other : Side} (h : other ≠ side) (chip : Chip) :
    (d.setChip side chip).chip other = d.chip other := by
  cases side <;> cases other <;> first | rfl | exact absurd rfl h

end Controller

theorem Chip.dreq_setHardwareRequest (chip : Chip) (ci : Fin 4) :
    ((chip.setHardwareRequest ci true).channel ci).dreq = true := by
  unfold setHardwareRequest
  rw [channel_setChannel_self]
  rfl

/-- A device's request through a datapath whose access does what the cycle says. -/
theorem served_of_access {α : Type} (s : State) (line : Line) (op : Op) (width : Width)
    {access : ℕ → Memory → Option α × Memory} {reply : α → Reply}
    (hlen : ∀ a m, (access a m).2.len = m.len)
    (hmoved : ∀ a m v m', access a m = (some v, m') → op.Moved a m (some (reply v)) m')
    (hinside : ∀ a m, op.Inside m a → (access a m).1.isSome) :
    Served s line op width (State.after reply (s.controller.request line
      (fun chip m => chip.unitCycle line.ci op.kind width access m) s.memory)) := by
  set granted := (s.controller.chip line.side).setHardwareRequest line.ci true with hgranted
  have haside : (s.controller.chip line.side).Aside granted line.ci :=
    Chip.setHardwareRequest_aside line.ci true
  have haddr : (granted.channel line.ci).unitAddress width =
      (s.controller.channel line).unitAddress width :=
    Channel.unitAddress_congr haside.registers width
  have hkind : (granted.channel line.ci).transferKind = (s.controller.channel line).transferKind :=
    congrArg Registers.transferKind haside.registers
  obtain ⟨hcycled, haccess⟩ := granted.unitCycle_spec line.ci op.kind width access s.memory
  rw [haddr] at haccess
  set served := granted.unitCycle line.ci op.kind width access s.memory with hserved
  have hresult : State.after reply (s.controller.request line
      (fun chip m => chip.unitCycle line.ci op.kind width access m) s.memory) =
      (served.1.map reply, ⟨s.controller.setChip line.side
        (served.2.1.setHardwareRequest line.ci false), served.2.2⟩) := rfl
  have hcycled' : (s.controller.chip line.side).Cycled ((s.controller.setChip line.side
      (served.2.1.setHardwareRequest line.ci false)).chip line.side) line.ci
      (served.1.map reply).isSome := by
    rw [s.controller.chip_setChip_self, Option.isSome_map]
    exact haside.between hcycled (Chip.setHardwareRequest_aside line.ci false)
  have hother := fun side (hne : side ≠ line.side) => s.controller.chip_setChip_ne hne
    (served.2.1.setHardwareRequest line.ci false)
  rw [hresult]
  rcases haccess with ⟨hready, hval⟩ | ⟨hnot, hnone, hkept⟩
  · refine ⟨hcycled', hother, ?_, fun hsome => ?_, fun _ => hkind.symm.trans hready.2,
      fun _ _ _ _ hin => ?_⟩
    · have h := hlen ((s.controller.channel line).unitAddress width) s.memory
      rw [hval] at h
      exact h
    · obtain ⟨v, hv⟩ := Option.isSome_iff_exists.mp (Option.isSome_map.symm.trans hsome)
      rw [hv] at hval ⊢
      exact hmoved _ _ v _ hval
    · have h := hinside _ _ hin
      rw [hval] at h
      exact Option.isSome_map.trans h
  · have hrefused : ¬ (served.1.map reply).isSome = true := by simp [hnone]
    refine ⟨hcycled', hother, congrArg Memory.len hkept, fun h => absurd h hrefused,
      fun h => absurd h hrefused, fun henabled hmask hmode hkind' _ => absurd ⟨?_, hkind.trans hkind'⟩ hnot⟩
    rw [Chip.controllerDisabled, haside.command]
    rintro (h | h | h | ⟨h, -⟩)
    · exact Bool.false_ne_true (henabled.symm.trans h)
    · exact Bool.false_ne_true (hmask.symm.trans ((congrArg Registers.mask haside.registers).symm.trans h))
    · exact hmode ((congrArg Registers.transferMode haside.registers).symm.trans h)
    · exact h (by rw [Chip.requestActive, Chip.dreq_setHardwareRequest]; rfl)

theorem storeByte_len (byte : UInt8) (address : ℕ) (m : Memory) :
    (storeByte byte address m).2.len = m.len := by
  unfold storeByte
  split
  · rfl
  · next h => exact Memory.writeU8_len h

theorem storeWord_len (word : UInt16) (address : ℕ) (m : Memory) :
    (storeWord word address m).2.len = m.len := by
  unfold storeWord
  split
  · rfl
  · next hlo =>
    split
    · exact Memory.writeU8_len hlo
    · next hhi => exact (Memory.writeU8_len hhi).trans (Memory.writeU8_len hlo)

/-- Every request a chip has a datapath for is served. -/
theorem step_served (line : Line) {op : Op} {width : Width}
    (hwidth : op.width line.side = some width) :
    Served s line op width (s.step (.request line op)) := by
  obtain ⟨side, ci⟩ := line
  cases op with
  | readByte =>
    cases hwidth
    refine served_of_access s ⟨side, ci⟩ .readByte .byte (fun _ _ => rfl) ?_ ?_
    · intro a m v m' h
      obtain ⟨hv, rfl⟩ := Prod.mk.inj h
      exact ⟨by rw [hv]; rfl, rfl⟩
    · exact fun a m h => Memory.readU8_isSome.mpr h
  | readWord =>
    cases side with
    | master => cases hwidth
    | slave =>
      cases hwidth
      refine served_of_access s ⟨.slave, ci⟩ .readWord .word (fun _ _ => rfl) ?_ ?_
      · intro a m v m' h
        obtain ⟨hv, rfl⟩ := Prod.mk.inj h
        obtain ⟨lo, hlo, hrest⟩ := Option.bind_eq_some_iff.mp hv
        obtain ⟨hi, hhi, hword⟩ := Option.bind_eq_some_iff.mp hrest
        cases hword
        exact ⟨lo, hi, hlo, hhi, rfl, rfl⟩
      · intro a m h
        have hin : a + 1 < m.len := h
        obtain ⟨lo, hlo⟩ := Option.isSome_iff_exists.mp
          (Memory.readU8_isSome.mpr (show a < m.len by omega))
        obtain ⟨hi, hhi⟩ := Option.isSome_iff_exists.mp (Memory.readU8_isSome.mpr hin)
        simp [fetchWord, hlo, hhi]
  | writeByte byte =>
    cases hwidth
    refine served_of_access s ⟨side, ci⟩ (.writeByte byte) .byte (storeByte_len byte) ?_ ?_
    · intro a m v m' h
      unfold storeByte at h
      split at h
      · cases h
      · next hwrite =>
        cases h
        exact ⟨rfl, hwrite⟩
    · intro a m h
      unfold storeByte
      rw [Memory.writeU8_eq h]
      rfl
  | writeWord word =>
    cases side with
    | master => cases hwidth
    | slave =>
      cases hwidth
      refine served_of_access s ⟨.slave, ci⟩ (.writeWord word) .word (storeWord_len word) ?_ ?_
      · intro a m v m' h
        unfold storeWord at h
        split at h
        · cases h
        · next hlo =>
          split at h
          · cases h
          · next hhi =>
            cases h
            refine ⟨rfl, ?_⟩
            rw [hlo]
            exact hhi
      · intro a m h
        have hin : a + 1 < m.len := h
        have hlo := Memory.writeU8_eq (show a < m.len by omega) word.toUInt8
        unfold storeWord
        rw [hlo]
        dsimp only
        rw [Memory.writeU8_eq (by rw [Memory.writeU8_len hlo]; exact hin)]
        rfl
  | verify =>
    have hverify : Served s ⟨side, ci⟩ .verify width (State.after (fun _ => .done)
        (s.controller.request ⟨side, ci⟩ (fun chip m => chip.unitCycle ci 0 width
          (fun _ m => (some (), m)) m) s.memory)) := by
      refine served_of_access s ⟨side, ci⟩ .verify width (fun _ _ => rfl) ?_ fun _ _ _ => rfl
      intro a m v m' h
      cases h
      exact ⟨rfl, rfl⟩
    exact hverify

/-- The master has no word path. -/
theorem step_unserved (line : Line) {op : Op} (hwidth : op.width line.side = none) :
    s.step (.request line op) = (none, s) := by
  obtain ⟨side, ci⟩ := line
  cases side <;> cases op <;> first | rfl | cases hwidth

theorem step_memToMem :
    s.controller.master.CopyAside (s.step .memToMem).2.controller.master ∧
      (s.step .memToMem).2.controller.slave = s.controller.slave ∧
      (s.step .memToMem).2.memory.len = s.memory.len := by
  obtain ⟨haside, hlen⟩ := s.controller.master.memToMem_aside s.memory
  exact ⟨haside, rfl, hlen⟩

/-! The block a channel is programmed for. -/

structure Program where
  addr : BitVec 16
  count : BitVec 16
  page : BitVec 8
  addrDecrement : Bool
  autoInit : Bool
  kind : BitVec 8
  mode : BitVec 8

namespace Program

variable (p : Program)

def last : ℕ := p.count.toNat

def position (i : ℕ) : ℕ := if p.autoInit then i % (p.last + 1) else i

def offset (j : ℕ) : ℕ :=
  ((if p.addrDecrement then (p.addr.toNat : ℤ) - j else (p.addr.toNat : ℤ) + j) % 2 ^ 16).toNat

def unitAddress (j : ℕ) : Width → ℕ
  | .byte => p.page.toNat * 2 ^ 16 + p.offset j
  | .word => p.page.toNat / 2 * 2 ^ 17 + 2 * p.offset j

theorem offset_zero : p.offset 0 = p.addr.toNat := by
  have h := p.addr.isLt
  unfold offset
  split_ifs <;> omega

theorem offset_succ_inc (hinc : p.addrDecrement = false) (j : ℕ) :
    p.offset (j + 1) = (p.offset j + 1) % 2 ^ 16 := by
  unfold offset
  rw [hinc]
  simp only [Bool.false_eq_true, if_false]
  omega

theorem offset_succ_dec (hdec : p.addrDecrement = true) (j : ℕ) :
    p.offset (j + 1) = (p.offset j + (2 ^ 16 - 1)) % 2 ^ 16 := by
  unfold offset
  rw [hdec]
  simp only [if_true]
  omega

theorem position_zero : p.position 0 = 0 := by
  unfold position
  split_ifs <;> simp

/-- Before the last unit the position goes up by one. -/
theorem position_succ_lt {i : ℕ} (h : p.position i < p.last) :
    p.position (i + 1) = p.position i + 1 := by
  unfold position at h ⊢
  split_ifs at h ⊢
  · rw [Nat.add_mod, Nat.mod_eq_of_lt (a := 1) (by omega), Nat.mod_eq_of_lt (by omega)]
  · rfl

/-- After the last unit a block starts over or has ended. -/
theorem position_succ_last {i : ℕ} (h : p.position i = p.last) :
    p.position (i + 1) = if p.autoInit then 0 else p.last + 1 := by
  unfold position at h ⊢
  split_ifs at h ⊢
  · exact Nat.succ_mod_succ_eq_zero_iff.mpr h
  · rw [h]

variable {i : ℕ} (h : p.position i ≤ p.last)
include h

/-- A unit is the last of its block exactly if its number ends one. -/
theorem position_eq_last_iff : p.position i = p.last ↔ (i + 1) % (p.last + 1) = 0 := by
  unfold position at h ⊢
  rw [Nat.succ_mod_succ_eq_zero_iff]
  split_ifs at h ⊢
  · rfl
  · rw [Nat.mod_eq_of_lt (Nat.lt_succ_of_le h)]

theorem position_succ_le : p.position (i + 1) ≤ p.last + 1 := by
  rcases Nat.lt_or_eq_of_le h with hlt | heq
  · rw [p.position_succ_lt hlt]
    omega
  · rw [p.position_succ_last heq]
    split_ifs <;> omega

/-- The last unit has been moved after a further one exactly if it had been or is that one. -/
theorem last_lt_succ_iff : p.last < i + 1 ↔ p.last < i ∨ p.position i = p.last := by
  unfold position at h ⊢
  split_ifs at h ⊢
  · have hmod := Nat.mod_le i (p.last + 1)
    constructor
    · intro hlt
      rcases Nat.lt_or_eq_of_le (Nat.le_of_lt_succ hlt) with hpast | heq
      · exact Or.inl hpast
      · exact Or.inr (by rw [← heq, Nat.mod_eq_of_lt (Nat.lt_succ_self _)])
    · omega
  · omega

end Program

structure Registers.At (r : Registers) (p : Program) (j : ℕ) : Prop where
  baseAddr : r.baseAddr = p.addr
  baseCount : r.baseCount = p.count
  page : r.page = p.page
  addrDecrement : r.addrDecrement = p.addrDecrement
  autoInit : r.autoInit = p.autoInit
  transferKind : r.transferKind = p.kind
  transferMode : r.transferMode = p.mode
  curAddr : r.curAddr.toNat = p.offset j
  curCount : j ≤ p.last → r.curCount.toNat = p.last - j
  mask : r.mask = decide (p.last < j)

variable {c : Channel} {p : Program}

theorem Registers.At.le_last {j : ℕ} (h : c.registers.At p j)
    (hmask : c.mask = false) : j ≤ p.last := by
  have hj : decide (p.last < j) = false := h.mask.symm.trans hmask
  exact Nat.le_of_not_lt (of_decide_eq_false hj)

/-- The terminal count is reached at the last unit and at no earlier one. -/
theorem Registers.At.curCount_eq_zero {j : ℕ} (h : c.registers.At p j)
    (hmask : c.mask = false) : c.curCount = 0 ↔ j = p.last := by
  have hle := h.le_last hmask
  have hcount : c.curCount.toNat = p.last - j := h.curCount hle
  constructor
  · intro hzero
    rw [hzero] at hcount
    have hj : 0 = p.last - j := hcount
    omega
  · intro hj
    apply BitVec.eq_of_toNat_eq
    rw [hcount, hj, Nat.sub_self]
    rfl

/-- The counter after a unit is at the next one. -/
theorem Registers.At.curAddr_step {j : ℕ} (h : c.registers.At p j) :
    (if c.addrDecrement then c.curAddr - 1 else c.curAddr + 1).toNat = p.offset (j + 1) := by
  have haddr : c.curAddr.toNat = p.offset j := h.curAddr
  have hdec : c.addrDecrement = p.addrDecrement := h.addrDecrement
  rw [hdec]
  cases hdir : p.addrDecrement with
  | false =>
    rw [p.offset_succ_inc hdir, ← haddr]
    simp [BitVec.toNat_add]
  | true =>
    rw [p.offset_succ_dec hdir, ← haddr]
    have hone : BitVec.toNat (1 : BitVec 16) = 1 := rfl
    simp only [if_true, BitVec.toNat_sub, hone]
    omega

/-- One cycle takes the channel to the next unit, to the first of the reloaded block, or past the
last, where it is masked. -/
theorem Registers.At.step {i : ℕ}
    (h : c.registers.At p (p.position i)) (hmask : c.mask = false) :
    c.stepTransfer.registers.At p (p.position (i + 1)) := by
  have hle := h.le_last hmask
  have hzero := h.curCount_eq_zero hmask
  have haddr := h.curAddr_step
  have hauto : c.autoInit = p.autoInit := h.autoInit
  have hcount : c.curCount.toNat = p.last - p.position i := h.curCount hle
  unfold Channel.stepTransfer
  dsimp only
  by_cases hlast : p.position i = p.last
  · rw [if_pos (decide_eq_true (hzero.mpr hlast)), p.position_succ_last hlast]
    cases hp : p.autoInit with
    | false =>
      rw [if_neg (by rw [hauto, hp]; decide), if_neg Bool.false_ne_true]
      refine { h with curAddr := ?_, curCount := fun habs => absurd habs (by omega), mask := ?_ }
      · rw [hlast] at haddr
        exact haddr
      · exact (decide_eq_true (Nat.lt_succ_self _)).symm
    | true =>
      rw [if_pos (hauto.trans hp), if_pos rfl]
      refine { h with curAddr := ?_, curCount := fun _ => ?_, mask := ?_ }
      · rw [p.offset_zero]
        exact congrArg BitVec.toNat h.baseAddr
      · exact congrArg BitVec.toNat h.baseCount
      · exact hmask.trans (decide_eq_false (Nat.not_lt_zero _)).symm
  · rw [if_neg (by simpa using mt hzero.mp hlast), p.position_succ_lt (by omega)]
    refine { h with curAddr := haddr, curCount := fun _ => ?_, mask := ?_ }
    · show (c.curCount - 1).toNat = p.last - (p.position i + 1)
      have hpos := c.curCount.isLt
      bv_omega
    · exact hmask.trans (decide_eq_false (by omega)).symm

/-! Runs of cycles. -/

structure Transfer where
  width : Width
  address : ℕ
  terminal : Bool
  deriving DecidableEq, Repr

def transferOf (line : Line) (s : State) : Event → Option Transfer
  | .request l op =>
    match op.width line.side with
    | some width =>
      if l = line ∧ (s.step (.request l op)).1.isSome then
        some {
          width
          address := (s.controller.channel line).unitAddress width
          terminal := ((s.step (.request l op)).2.controller.channel line).reachedTc }
      else none
    | none => none
  | .memToMem => none

def transfers (line : Line) : List Event → State → List Transfer
  | [], _ => []
  | e :: rest, s => (transferOf line s e).toList ++ transfers line rest (s.step e).2

abbrev exec : List Event → State → State := Runs.exec fun s e => (s.step e).2

def Event.Spares (line : Line) : Event → Prop
  | .request _ _ => True
  | .memToMem => line ≠ ⟨.master, 0⟩ ∧ line ≠ ⟨.master, 1⟩

structure State.On (s : State) (line : Line) (p : Program) (i : ℕ) : Prop where
  enabled : (s.controller.chip line.side).controllerDisabled = false
  registers : (s.controller.channel line).registers.At p (p.position i)
  terminal : (s.controller.chip line.side).terminal line.ci = decide (p.last < i)
  le : p.position i ≤ p.last + 1

variable {s : State} {line : Line} {p : Program} {i : ℕ}

section

variable (h : s.On line p i)
include h

theorem State.On.unitAddress (width : Width) :
    (s.controller.channel line).unitAddress width = p.unitAddress (p.position i) width := by
  have hpage : (s.controller.channel line).page = p.page := h.registers.page
  have haddr : (s.controller.channel line).curAddr.toNat = p.offset (p.position i) :=
    h.registers.curAddr
  cases width with
  | byte => exact (Channel.byteAddress_eq _).trans (by rw [hpage, haddr]; rfl)
  | word => exact (Channel.wordAddress_eq _).trans (by rw [hpage, haddr]; rfl)

/-- An event that keeps the channel's registers, its chip's command and its latched count. -/
theorem State.On.keep {s' : State}
    (hcommand : (s'.controller.chip line.side).command = (s.controller.chip line.side).command)
    (hregisters : (s'.controller.channel line).registers = (s.controller.channel line).registers)
    (hterminal : (s'.controller.chip line.side).terminal line.ci =
      (s.controller.chip line.side).terminal line.ci) : s'.On line p i where
  enabled := by
    rw [Chip.controllerDisabled, hcommand]
    exact h.enabled
  registers := by
    rw [hregisters]
    exact h.registers
  terminal := hterminal.trans h.terminal
  le := h.le

/-- Another channel's request. -/
theorem State.On.other {l : Line} (hne : l ≠ line) (op : Op) : (s.step (.request l op)).2.On line p i := by
  cases hwidth : op.width l.side with
  | none =>
    rw [step_unserved s l hwidth]
    exact h
  | some width =>
    have hserved := step_served s l hwidth
    by_cases hside : line.side = l.side
    · have hci : line.ci ≠ l.ci := by
        intro heq
        apply hne
        cases l
        cases line
        cases hside
        cases heq
        rfl
      refine h.keep ?_ ?_ ?_
      · rw [hside]
        exact hserved.cycled.command
      · unfold Controller.channel
        rw [hside, hserved.cycled.others line.ci hci]
      · rw [hside]
        exact hserved.cycled.terminalOthers line.ci hci
    · have hchip := hserved.otherChip line.side hside
      refine h.keep ?_ ?_ ?_
      · rw [hchip]
      · unfold Controller.channel
        rw [hchip]
      · rw [hchip]

theorem State.On.memToMem
    (hspares : Event.Spares line .memToMem) : (s.step .memToMem).2.On line p i := by
  obtain ⟨haside, hslave, -⟩ := step_memToMem s
  obtain ⟨side, ci⟩ := line
  cases side with
  | master =>
    have h0 : ci ≠ 0 := fun heq => hspares.1 (by rw [heq])
    have h1 : ci ≠ 1 := fun heq => hspares.2 (by rw [heq])
    exact h.keep haside.command (congrArg Channel.registers (haside.others ci h0 h1))
      (haside.terminalOthers ci h1)
  | slave =>
    refine h.keep (congrArg Chip.command hslave) ?_ ?_
    · exact congrArg (fun chip : Chip => (chip.channel ci).registers) hslave
    · exact congrArg (fun chip : Chip => chip.terminal ci) hslave

/-- The channel's own request: refused, or the unit it is at is moved. -/
theorem State.On.own (op : Op) :
    (transferOf line s (.request line op) = none ∧ (s.step (.request line op)).2.On line p i) ∨
      ∃ t, transferOf line s (.request line op) = some t ∧ p.position i ≤ p.last ∧
        t.address = p.unitAddress (p.position i) t.width ∧
        t.terminal = decide (p.position i = p.last) ∧
        (s.step (.request line op)).2.On line p (i + 1) := by
  cases hwidth : op.width line.side with
  | none =>
    simp only [transferOf, hwidth, step_unserved s line hwidth]
    exact Or.inl ⟨trivial, h⟩
  | some width =>
    have hserved := step_served s line hwidth
    simp only [transferOf, hwidth, true_and]
    cases hsome : (s.step (.request line op)).1.isSome with
    | false =>
      obtain ⟨hregisters, hterminal⟩ := hserved.cycled.refused hsome
      exact Or.inl ⟨if_neg Bool.false_ne_true, h.keep hserved.cycled.command hregisters hterminal⟩
    | true =>
      obtain ⟨hmask, hregisters, htc, hterminal⟩ := hserved.cycled.stepped hsome
      have hmask' : (s.controller.channel line).mask = false := hmask
      have hle := h.registers.le_last hmask'
      have hzero := h.registers.curCount_eq_zero hmask'
      refine Or.inr ⟨_, if_pos rfl, hle, h.unitAddress width, ?_, ?_⟩
      · exact htc.trans (decide_eq_decide.mpr hzero)
      · refine ⟨?_, ?_, ?_, p.position_succ_le hle⟩
        · rw [Chip.controllerDisabled, hserved.cycled.command]
          exact h.enabled
        · rw [show ((s.step (.request line op)).2.controller.channel line).registers =
            (s.controller.channel line).stepTransfer.registers from hregisters]
          exact h.registers.step hmask'
        · rw [hterminal, h.terminal, ← Bool.decide_or]
          exact decide_eq_decide.mpr ((or_congr_right hzero).trans (p.last_lt_succ_iff hle).symm)

end

theorem transferOf_other {line l : Line} (hl : l ≠ line) (s : State) (op : Op) :
    transferOf line s (.request l op) = none := by
  unfold transferOf
  dsimp only
  split
  · rw [if_neg fun habs => hl habs.1]
  · rfl

/-- One event moves the unit the channel is at, or leaves the channel where it is. -/
theorem State.On.step (h : s.On line p i) {e : Event}
    (hspares : e.Spares line) :
    (transferOf line s e = none ∧ (s.step e).2.On line p i) ∨
      ∃ t, transferOf line s e = some t ∧ p.position i ≤ p.last ∧
        t.address = p.unitAddress (p.position i) t.width ∧
        t.terminal = decide (p.position i = p.last) ∧ (s.step e).2.On line p (i + 1) := by
  cases e with
  | memToMem => exact Or.inl ⟨rfl, h.memToMem hspares⟩
  | request l op =>
    by_cases hl : l = line
    · subst hl
      exact h.own op
    · exact Or.inl ⟨transferOf_other hl s op, h.other hl op⟩

structure InOrder (p : Program) (i : ℕ) (ts : List Transfer) : Prop where
  address : ∀ k t, ts[k]? = some t → t.address = p.unitAddress (p.position (i + k)) t.width
  terminal : ∀ k t, ts[k]? = some t → t.terminal = decide ((i + k + 1) % (p.last + 1) = 0)

theorem run_in_order (events : List Event) {s : State}
    (h : s.On line p i) (hspares : ∀ e ∈ events, e.Spares line) :
    InOrder p i (transfers line events s) ∧
      (exec events s).On line p (i + (transfers line events s).length) := by
  induction events generalizing s i with
  | nil => exact ⟨⟨nofun, nofun⟩, h⟩
  | cons e rest ih =>
    have hrest : ∀ e ∈ rest, e.Spares line := fun e he => hspares e (List.mem_cons_of_mem _ he)
    rw [transfers, exec, Runs.exec_cons]
    rcases h.step (hspares e List.mem_cons_self) with ⟨hnone, hon⟩ | ⟨t, hsome, hle, haddr, htc, hon⟩
    · rw [hnone]
      exact ih hon hrest
    · obtain ⟨⟨haddrs, htcs⟩, hlast⟩ := ih hon hrest
      rw [hsome]
      refine ⟨⟨fun k u hu => ?_, fun k u hu => ?_⟩, ?_⟩
      · cases k with
        | zero =>
          cases hu
          exact haddr
        | succ k =>
          have hk := haddrs k u hu
          rw [Nat.add_right_comm] at hk
          exact hk
      · cases k with
        | zero =>
          cases hu
          rw [htc]
          exact decide_eq_decide.mpr (p.position_eq_last_iff hle)
        | succ k =>
          have hk := htcs k u hu
          rw [Nat.add_right_comm i 1 k] at hk
          exact hk
      · rw [Nat.add_right_comm] at hlast
        exact hlast

/-! How many units a run moves. -/

def Event.asks (line : Line) (p : Program) : Event → Bool
  | .request l op => l = line ∧ op.kind = p.kind ∧ (op.width line.side).isSome
  | .memToMem => false

def Event.Fits (line : Line) (p : Program) (m : Memory) : Event → Prop
  | .request l op => l = line → ∀ width, op.width line.side = some width →
      ∀ j ≤ p.last, op.Inside m (p.unitAddress j width)
  | .memToMem => True

theorem step_len (s : State) (e : Event) : (s.step e).2.memory.len = s.memory.len := by
  cases e with
  | memToMem => exact (step_memToMem s).2.2
  | request l op =>
    cases hwidth : op.width l.side with
    | none => rw [step_unserved s l hwidth]
    | some width => exact (step_served s l hwidth).len

theorem Op.inside_congr {m m' : Memory} (h : m'.len = m.len) (op : Op) (address : ℕ) :
    op.Inside m' address ↔ op.Inside m address := by
  cases op <;> simp only [Op.Inside, h]

theorem Event.Fits.step {s : State} {e : Event}
    (h : e.Fits line p s.memory) (e' : Event) : e.Fits line p (s.step e').2.memory := by
  cases e with
  | memToMem => trivial
  | request l op =>
    exact fun hl width hwidth j hj =>
      (Op.inside_congr (step_len s e') op _).mpr (h hl width hwidth j hj)

theorem Op.Moved.inside {op : Op} {address : ℕ} {m m' : Memory} {reply : Option Reply}
    (h : op.Moved address m reply m') (hsome : reply.isSome) : op.Inside m address := by
  cases op with
  | readByte =>
    rw [h.1, Option.isSome_map] at hsome
    exact Memory.readU8_isSome.mp hsome
  | readWord =>
    obtain ⟨lo, hi, -, hhi, -, -⟩ := h
    exact Memory.readU8_isSome.mp (Option.isSome_iff_exists.mpr ⟨hi, hhi⟩)
  | writeByte byte => exact Memory.writeU8_lt h.2
  | writeWord word =>
    obtain ⟨m₁, hlo, hhi⟩ := Option.bind_eq_some_iff.mp h.2
    have hin := Memory.writeU8_lt hhi
    rw [Memory.writeU8_len hlo] at hin
    exact hin
  | verify => trivial

/-- A request moves the unit the channel is at exactly if it is of the programmed kind, the block
has not ended and the unit lies inside memory. -/
theorem State.On.own_isSome (h : s.On line p i)
    (hmode : p.mode ≠ 3) (op : Op) :
    (transferOf line s (.request line op)).isSome ↔
      op.kind = p.kind ∧ p.position i ≤ p.last ∧ ∃ width, op.width line.side = some width ∧
        op.Inside s.memory (p.unitAddress (p.position i) width) := by
  cases hwidth : op.width line.side with
  | none => simp [transferOf, hwidth]
  | some width =>
    have hserved := step_served s line hwidth
    have hdone : (transferOf line s (.request line op)).isSome ↔
        (s.step (.request line op)).1.isSome = true := by
      simp only [transferOf, hwidth, true_and]
      split_ifs with hsome
      · exact iff_of_true rfl hsome
      · exact iff_of_false nofun hsome
    rw [hdone]
    constructor
    · intro hsome
      refine ⟨(hserved.kind hsome).symm.trans h.registers.transferKind, ?_, width, rfl, ?_⟩
      · exact h.registers.le_last (hserved.cycled.stepped hsome).1
      · rw [← h.unitAddress width]
        exact (hserved.moved hsome).inside hsome
    · rintro ⟨hkind, hle, _, ⟨⟩, hinside⟩
      refine hserved.completes h.enabled ?_ ?_ ?_ ?_
      · exact h.registers.mask.trans (decide_eq_false (Nat.not_lt.mpr hle))
      · exact fun hcascade => hmode (h.registers.transferMode.symm.trans hcascade)
      · exact h.registers.transferKind.trans hkind.symm
      · rw [h.unitAddress width]
        exact hinside

/-- Inside memory, a unit is moved exactly if it is asked for before the block has ended. -/
theorem State.On.transferOf_isSome
    (h : s.On line p i) (hmode : p.mode ≠ 3) {e : Event} (hfits : e.Fits line p s.memory) :
    (transferOf line s e).isSome ↔ e.asks line p = true ∧ p.position i ≤ p.last := by
  cases e with
  | memToMem => simp [transferOf, Event.asks]
  | request l op =>
    by_cases hl : l = line
    · subst hl
      rw [h.own_isSome hmode op]
      have hasks : Event.asks l p (.request l op) = true ↔
          op.kind = p.kind ∧ (op.width l.side).isSome := by simp [Event.asks]
      rw [hasks, Option.isSome_iff_exists]
      constructor
      · rintro ⟨hkind, hle, width, hwidth, -⟩
        exact ⟨⟨hkind, width, hwidth⟩, hle⟩
      · rintro ⟨⟨hkind, width, hwidth⟩, hle⟩
        exact ⟨hkind, hle, width, hwidth, hfits rfl width hwidth _ hle⟩
    · rw [transferOf_other hl]
      simp [Event.asks, hl]

/-- The units a run moves: one for each that is asked for, up to the end of a block that is not
reloaded. -/
theorem run_count (hmode : p.mode ≠ 3) {i : ℕ} (events : List Event)
    {s : State} (h : s.On line p i) (hspares : ∀ e ∈ events, e.Spares line)
    (hfits : ∀ e ∈ events, e.Fits line p s.memory) :
    (transfers line events s).length =
      if p.autoInit then events.countP (Event.asks line p)
      else min (events.countP (Event.asks line p)) (p.last + 1 - i) := by
  induction events generalizing s i with
  | nil => simp [transfers]
  | cons e rest ih =>
    have hrest : ∀ e ∈ rest, e.Spares line := fun e he => hspares e (List.mem_cons_of_mem _ he)
    have hfits' : ∀ e' ∈ rest, e'.Fits line p (s.step e).2.memory :=
      fun e' he => (hfits e' (List.mem_cons_of_mem _ he)).step e
    have hmoves := h.transferOf_isSome hmode (hfits e List.mem_cons_self)
    rw [transfers, List.length_append]
    rcases h.step (hspares e List.mem_cons_self) with ⟨hnone, hon⟩ | ⟨t, hsome, hle, -, -, hon⟩
    · rw [hnone] at hmoves ⊢
      rw [ih hon hrest hfits', List.countP_cons]
      by_cases hasks : e.asks line p = true
      · -- asked for after the end of the block
        have hpast : ¬ p.position i ≤ p.last := fun hle => nomatch hmoves.mpr ⟨hasks, hle⟩
        unfold Program.position at hpast
        split_ifs at hpast ⊢ with hauto
        · exact absurd (Nat.le_of_lt_succ (Nat.mod_lt _ (Nat.succ_pos _))) hpast
        · simp only [Option.toList_none, List.length_nil]
          omega
      · simp [hasks]
    · rw [hsome] at hmoves ⊢
      obtain ⟨hasks, -⟩ := hmoves.mp rfl
      rw [ih hon hrest hfits', List.countP_cons, if_pos hasks]
      unfold Program.position at hle
      split_ifs at hle ⊢ with hauto
      · simp only [Option.toList_some, List.length_singleton]
        omega
      · simp only [Option.toList_some, List.length_singleton]
        omega

/-! Programming a channel through the ports. -/

def Program.registers (p : Program) : Registers where
  baseAddr := p.addr
  curAddr := p.addr
  baseCount := p.count
  curCount := p.count
  page := p.page
  addrDecrement := p.addrDecrement
  autoInit := p.autoInit
  transferKind := p.kind
  transferMode := p.mode
  mask := false

def Program.ofBytes (addrLo addrHi countLo countHi page mode : BitVec 8) : Program where
  addr := addrHi ++ addrLo
  count := countHi ++ countLo
  page := page
  addrDecrement := mode &&& 0x20#8 ≠ 0
  autoInit := mode &&& 0x10#8 ≠ 0
  kind := (mode >>> 2) &&& 0x3#8
  mode := (mode >>> 6) &&& 0x3#8

structure State.Programmed (s : State) (line : Line) (p : Program) : Prop where
  enabled : (s.controller.chip line.side).controllerDisabled = false
  registers : (s.controller.channel line).registers = p.registers
  terminal : (s.controller.chip line.side).terminal line.ci = false

theorem State.Programmed.on (h : s.Programmed line p) :
    s.On line p 0 where
  enabled := h.enabled
  registers := by
    rw [p.position_zero, h.registers]
    exact ⟨rfl, rfl, rfl, rfl, rfl, rfl, rfl, p.offset_zero.symm, fun _ => rfl, rfl⟩
  terminal := h.terminal.trans (decide_eq_false (Nat.not_lt_zero _)).symm
  le := by
    rw [p.position_zero]
    exact Nat.zero_le _

def localPort (reg : Fin 16) : Side → ℕ
  | .master => reg
  | .slave => 0xc0 + 2 * reg

theorem writePort_localPort (d : Controller) (side : Side) (reg : Fin 16) (value : BitVec 8) :
    (d.writePort (localPort reg side) value).2 =
      d.setChip side ((d.chip side).writeLocal reg value) := by
  cases side with
  | master =>
    unfold Controller.writePort
    rw [dif_pos (show localPort reg .master < 16 from reg.isLt)]
    rfl
  | slave =>
    have hlocal : Controller.slaveLocal (localPort reg .slave) = some reg := by
      revert reg
      decide
    have hhigh : ¬ localPort reg .slave < 16 := by
      simp only [localPort]
      omega
    unfold Controller.writePort
    rw [dif_neg hhigh, hlocal]
    rfl

def writePorts (writes : List (ℕ × BitVec 8)) (d : Controller) : Controller :=
  writes.foldl (fun d w => (d.writePort w.1 w.2).2) d

def chipProgram (ci : Fin 4) (addrLo addrHi countLo countHi mode : BitVec 8) :
    List (Fin 16 × BitVec 8) :=
  [(12, 0), (⟨2 * ci, by omega⟩, addrLo), (⟨2 * ci, by omega⟩, addrHi),
    (⟨2 * ci + 1, by omega⟩, countLo), (⟨2 * ci + 1, by omega⟩, countHi), (11, mode),
    (10, BitVec.ofNat 8 ci)]

namespace Chip

variable (chip : Chip)

theorem writeLocal_addr (ci : Fin 4) (value : BitVec 8) :
    chip.writeLocal ⟨2 * ci, by omega⟩ value = chip.writeAddr ci value := by
  match ci with
  | 0 | 1 | 2 | 3 => rfl

theorem writeLocal_count (ci : Fin 4) (value : BitVec 8) :
    chip.writeLocal ⟨2 * ci + 1, by omega⟩ value = chip.writeCount ci value := by
  match ci with
  | 0 | 1 | 2 | 3 => rfl

/-- A word written low byte first. -/
theorem writeHalf_both {first second : Chip} (hfirst : first.hiLo = false)
    (hsecond : second.hiLo = true) (old : BitVec 16) (lo hi : BitVec 8) :
    second.writeHalf (first.writeHalf old lo) hi = hi ++ lo := by
  have hhigh : ∀ i : Fin 16, (0xff00#16).getLsbD i = decide (8 ≤ i.val) := by decide
  have hlow : ∀ i : Fin 16, (0x00ff#16).getLsbD i = decide (i.val < 8) := by decide
  unfold writeHalf
  rw [hfirst, hsecond]
  apply BitVec.eq_of_getLsbD_eq
  intro i hlt
  have hhigh' : (0xff00#16).getLsbD i = decide (8 ≤ i) := hhigh ⟨i, hlt⟩
  have hlow' : (0x00ff#16).getLsbD i = decide (i < 8) := hlow ⟨i, hlt⟩
  simp only [Bool.not_true, Bool.not_false, if_true, Bool.false_eq_true, if_false,
    BitVec.getLsbD_or, BitVec.getLsbD_and, BitVec.getLsbD_setWidth, BitVec.getLsbD_shiftLeft,
    BitVec.getLsbD_append, hhigh', hlow']
  by_cases h : i < 8
  · simp [h, hlt, Nat.not_le.mpr h]
  · have hbyte : i - 8 < 16 := by omega
    simp [h, hlt, hbyte]

/-- Both bytes of an address, through the pointer. -/
theorem writeAddr_both (hpointer : chip.hiLo = false) (ci : Fin 4) (lo hi : BitVec 8) :
    ((chip.writeAddr ci lo).writeAddr ci hi).channel ci =
      { chip.channel ci with baseAddr := hi ++ lo, curAddr := hi ++ lo } := by
  have hfirst : (chip.writeAddr ci lo).channel ci = _ := chip.channel_setChannel_self ci _
  refine ((chip.writeAddr ci lo).channel_setChannel_self ci _).trans ?_
  rw [hfirst]
  dsimp only
  rw [writeHalf_both hpointer (congrArg not hpointer)]

/-- Both bytes of a count, which also clears the latched terminal count. -/
theorem writeCount_both (hpointer : chip.hiLo = false) (ci : Fin 4) (lo hi : BitVec 8) :
    ((chip.writeCount ci lo).writeCount ci hi).channel ci =
        { chip.channel ci with baseCount := hi ++ lo, curCount := hi ++ lo, reachedTc := false } ∧
      ((chip.writeCount ci lo).writeCount ci hi).terminal ci = false := by
  have hfirst : (chip.writeCount ci lo).channel ci = _ := chip.channel_setChannel_self ci _
  refine ⟨((chip.writeCount ci lo).channel_setChannel_self ci _).trans ?_, ?_⟩
  · rw [hfirst]
    dsimp only
    rw [writeHalf_both hpointer (congrArg not hpointer)]
  · show hasBit (clearBit (clearBit chip.status ci) ci) ci = false
    rw [hasBit_clearBit (by omega) (by omega)]
    simp

/-- The mode, of the channel its low bits select. -/
theorem writeMode {ci : Fin 4} {mode : BitVec 8} (hci : selected mode = ci) :
    (chip.writeLocal 11 mode).channel ci = (chip.channel ci).setMode mode := by
  subst hci
  exact chip.channel_setChannel_self _ _

theorem writeUnmask (ci : Fin 4) :
    (chip.writeLocal 10 (BitVec.ofNat 8 ci)).channel ci = { chip.channel ci with mask := false } := by
  have hci : selected (BitVec.ofNat 8 ci) = ci := by
    revert ci
    decide
  have hbit : (BitVec.ofNat 8 ci &&& 0x04#8 ≠ 0) = False := by
    revert ci
    decide
  show (chip.setChannel (selected (BitVec.ofNat 8 ci)) (setMask
    (chip.channel (selected (BitVec.ofNat 8 ci))) (BitVec.ofNat 8 ci &&& 0x04#8 ≠ 0))).channel ci = _
  simp only [hci, hbit, channel_setChannel_self]
  rfl

def writeLocals (writes : List (Fin 16 × BitVec 8)) (chip : Chip) : Chip :=
  writes.foldl (fun chip w => chip.writeLocal w.1 w.2) chip

/-- A chip's program writes leave the channel unmasked at the start of its block. -/
theorem chipProgram_registers {ci : Fin 4} {mode : BitVec 8} (hci : selected mode = ci)
    (addrLo addrHi countLo countHi : BitVec 8) :
    ∃ chip', chip.writeLocals (chipProgram ci addrLo addrHi countLo countHi mode) = chip' ∧
      (chip'.channel ci).registers = (Program.ofBytes addrLo addrHi countLo countHi
        (chip.channel ci).page mode).registers ∧
      chip'.command = chip.command ∧ chip'.terminal ci = false := by
  refine ⟨_, rfl, ?_⟩
  have hwrites : chip.writeLocals (chipProgram ci addrLo addrHi countLo countHi mode) =
      ((((({ chip with hiLo := false }.writeAddr ci addrLo).writeAddr ci addrHi).writeCount ci
        countLo).writeCount ci countHi).writeLocal 11 mode).writeLocal 10 (BitVec.ofNat 8 ci) := by
    simp only [writeLocals, chipProgram, List.foldl_cons, List.foldl_nil, writeLocal_addr,
      writeLocal_count]
    rfl
  obtain ⟨hcounted, hterminal⟩ := (({ chip with hiLo := false }.writeAddr ci addrLo).writeAddr ci
    addrHi).writeCount_both rfl ci countLo countHi
  rw [hwrites]
  refine ⟨?_, rfl, hterminal⟩
  rw [writeUnmask, writeMode _ hci, hcounted, writeAddr_both _ rfl]
  rfl

end Chip

theorem writePorts_localPort (side : Side) (writes : List (Fin 16 × BitVec 8)) (d : Controller) :
    writePorts (writes.map fun w => (localPort w.1 side, w.2)) d =
      d.setChip side ((d.chip side).writeLocals writes) := by
  induction writes generalizing d with
  | nil => cases side <;> rfl
  | cons w writes ih =>
    have hrest := ih ((d.writePort (localPort w.1 side) w.2).2)
    rw [writePort_localPort, d.chip_setChip_self] at hrest
    have hcons : writePorts ((w :: writes).map fun w => (localPort w.1 side, w.2)) d =
        writePorts (writes.map fun w => (localPort w.1 side, w.2))
          (d.writePort (localPort w.1 side) w.2).2 := rfl
    rw [hcons, writePort_localPort, hrest]
    cases side <;> rfl

def programming (line : Line) (pagePort : ℕ) (addrLo addrHi countLo countHi page mode : BitVec 8) :
    List (ℕ × BitVec 8) :=
  (pagePort, page) :: (chipProgram line.ci addrLo addrHi countLo countHi mode).map
    fun w => (localPort w.1 line.side, w.2)

theorem writePort_page {pagePort : ℕ} (hpage : Controller.pageTarget pagePort = some line)
    (d : Controller) (page : BitVec 8) : (d.writePort pagePort page).2 = d.setPage line page := by
  have hports : ¬ pagePort < 16 ∧ Controller.slaveLocal pagePort = none := by
    unfold Controller.pageTarget at hpage
    split at hpage <;> first | decide | cases hpage
  unfold Controller.writePort
  rw [dif_neg hports.1, hports.2, hpage]

/-- Programming a channel through the ports starts it at the first unit of its block. -/
theorem programming_programmed (s : State) (line : Line) (pagePort : ℕ)
    (addrLo addrHi countLo countHi page mode : BitVec 8)
    (hpage : Controller.pageTarget pagePort = some line) (hmode : Chip.selected mode = line.ci)
    (henabled : (s.controller.chip line.side).controllerDisabled = false) :
    State.Programmed
      ⟨writePorts (programming line pagePort addrLo addrHi countLo countHi page mode) s.controller,
        s.memory⟩
      line (Program.ofBytes addrLo addrHi countLo countHi page mode) := by
  have hports : writePorts (programming line pagePort addrLo addrHi countLo countHi page mode)
      s.controller = (s.controller.setPage line page).setChip line.side
        (((s.controller.setPage line page).chip line.side).writeLocals
          (chipProgram line.ci addrLo addrHi countLo countHi mode)) := by
    have hcons : writePorts (programming line pagePort addrLo addrHi countLo countHi page mode)
        s.controller = writePorts ((chipProgram line.ci addrLo addrHi countLo countHi mode).map
          fun w => (localPort w.1 line.side, w.2)) (s.controller.writePort pagePort page).2 := rfl
    rw [hcons, writePort_page hpage, writePorts_localPort]
  have hpaged : (s.controller.setPage line page).chip line.side =
      (s.controller.chip line.side).setChannel line.ci
        { s.controller.channel line with page } := s.controller.chip_setChip_self _ _
  obtain ⟨chip', hchip, hregisters, hcommand, hterminal⟩ :=
    ((s.controller.setPage line page).chip line.side).chipProgram_registers hmode addrLo addrHi
      countLo countHi
  rw [hpaged, Chip.channel_setChannel_self] at hregisters
  have hchip' : (writePorts (programming line pagePort addrLo addrHi countLo countHi page mode)
      s.controller).chip line.side = chip' := by
    rw [hports, Controller.chip_setChip_self, hchip]
  refine ⟨?_, ?_, ?_⟩
  · rw [hchip', Chip.controllerDisabled, hcommand, hpaged]
    exact henabled
  · unfold Controller.channel
    rw [hchip']
    exact hregisters
  · rw [hchip']
    exact hterminal

/-- Unit `k` is moved at its address or refused outside memory, and the terminal count is raised at
the last unit of a block alone, where the channel reloads or is masked. -/
structure BlockLaw (line : Line) (p : Program) (events : List Event) (s : State) : Prop where
  address : ∀ k t, (transfers line events s)[k]? = some t →
    t.address = p.unitAddress (k % (p.last + 1)) t.width
  terminal : ∀ k t, (transfers line events s)[k]? = some t →
    t.terminal = decide ((k + 1) % (p.last + 1) = 0)
  moved : ∀ s op t, transferOf line s (.request line op) = some t →
    op.Moved t.address s.memory (s.step (.request line op)).1 (s.step (.request line op)).2.memory
  count : (∀ e ∈ events, e.Fits line p s.memory) → (transfers line events s).length =
    if p.autoInit then events.countP (Event.asks line p)
    else min (events.countP (Event.asks line p)) (p.last + 1)
  next : ∀ op, (transferOf line (exec events s) (.request line op)).isSome ↔ op.kind = p.kind ∧
    p.position (transfers line events s).length ≤ p.last ∧
    ∃ width, op.width line.side = some width ∧ op.Inside (exec events s).memory
      (p.unitAddress (p.position (transfers line events s).length) width)
  latched : ((exec events s).controller.chip line.side).terminal line.ci =
    decide (p.last < (transfers line events s).length)
  reloaded : p.autoInit = true → (transfers line events s).length % (p.last + 1) = 0 →
    ((exec events s).controller.channel line).registers = p.registers
  masked : p.autoInit = false → (transfers line events s).length ≤ p.last + 1 ∧
    (((exec events s).controller.channel line).mask = true ↔
      (transfers line events s).length = p.last + 1)

/-- A channel at the start of a reloaded block is as its program left it. -/
theorem Registers.At.reloaded {r : Registers} {p : Program} (h : r.At p 0) : r = p.registers := by
  have hcount := h.curCount (Nat.zero_le _)
  have haddr := h.curAddr
  have hmask := h.mask
  rw [p.offset_zero] at haddr
  cases r
  obtain ⟨rfl, rfl, rfl, rfl, rfl, rfl, rfl, -, -, -⟩ := h
  cases BitVec.eq_of_toNat_eq haddr
  cases BitVec.eq_of_toNat_eq hcount
  rw [decide_eq_false (Nat.not_lt_zero _)] at hmask
  cases hmask
  rfl

theorem moved_of_transferOf {s : State} {op : Op} {t : Transfer}
    (h : transferOf line s (.request line op) = some t) :
    op.Moved t.address s.memory (s.step (.request line op)).1
      (s.step (.request line op)).2.memory := by
  cases hwidth : op.width line.side with
  | none =>
    simp only [transferOf, hwidth] at h
    cases h
  | some width =>
    simp only [transferOf, hwidth, true_and] at h
    split_ifs at h with hsome
    cases h
    exact (step_served s line hwidth).moved hsome

/-- A channel that is programmed for demand, single or block transfers obeys the block transfer
law, in every run of requests of all channels and of memory-to-memory copies of others. -/
theorem block_transfer_law {s : State} (h : s.Programmed line p)
    (hmode : p.mode ≠ 3) (events : List Event) (hspares : ∀ e ∈ events, e.Spares line) :
    BlockLaw line p events s := by
  obtain ⟨⟨haddress, hterminal⟩, hon⟩ := run_in_order events h.on hspares
  rw [Nat.zero_add] at hon
  have hle := hon.le
  -- a block that is not reloaded has no unit past its last
  have hbound (hauto : p.autoInit = false) : (transfers line events s).length ≤ p.last + 1 := by
    unfold Program.position at hle
    rw [if_neg (by rw [hauto]; decide)] at hle
    exact hle
  refine ⟨fun k t ht => ?_, fun k t ht => ?_, fun s op t => moved_of_transferOf, fun hfits => ?_,
    hon.own_isSome hmode, hon.terminal, fun hauto hzero => ?_, fun hauto => ⟨hbound hauto, ?_⟩⟩
  · have hk := haddress k t ht
    rw [Nat.zero_add] at hk
    rw [hk]
    unfold Program.position
    split_ifs with hauto
    · rfl
    · have hlength := hbound (Bool.eq_false_iff.mpr hauto)
      obtain ⟨hlt, -⟩ := List.getElem?_eq_some_iff.mp ht
      rw [Nat.mod_eq_of_lt (by omega)]
  · have hk := hterminal k t ht
    rw [Nat.zero_add] at hk
    exact hk
  · exact run_count hmode events h.on hspares hfits
  · have hregisters := hon.registers
    unfold Program.position at hregisters
    rw [if_pos hauto, hzero] at hregisters
    exact hregisters.reloaded
  · have hmask : ((exec events s).controller.channel line).mask = _ := hon.registers.mask
    unfold Program.position at hmask
    rw [if_neg (by rw [hauto]; decide)] at hmask
    have hlength := hbound hauto
    rw [hmask, decide_eq_true_eq]
    omega

/-- Channel 1 with a block of two bytes from 0xffff down, while channels 2 and 5 ask too. -/
theorem two_bytes_down :
    BlockLaw ⟨.master, 1⟩ (Program.ofBytes 0xff 0xff 0x01 0x00 0x00 0x69)
      [.request ⟨.master, 1⟩ .readByte, .request ⟨.master, 2⟩ .readByte,
        .request ⟨.slave, 1⟩ .readWord, .request ⟨.master, 1⟩ .readByte]
      ⟨writePorts (programming ⟨.master, 1⟩ 0x83 0xff 0xff 0x01 0x00 0x00 0x69)
        (writePorts (programming ⟨.master, 2⟩ 0x81 0x00 0x10 0x07 0x00 0x00 0x4a)
          Controller.powerOn), ⟨List.replicate (2 ^ 20) 0⟩⟩ := by
  refine block_transfer_law (programming_programmed
    ⟨writePorts (programming ⟨.master, 2⟩ 0x81 0x00 0x10 0x07 0x00 0x00 0x4a) Controller.powerOn,
      ⟨List.replicate (2 ^ 20) 0⟩⟩ ⟨.master, 1⟩ 0x83 0xff 0xff 0x01 0x00 0x00 0x69 rfl rfl ?_)
    (by decide) _ ?_
  · decide
  · intro e he
    simp only [List.mem_cons, List.not_mem_nil, or_false] at he
    rcases he with rfl | rfl | rfl | rfl <;> trivial

/-- A channel at a unit outside memory stalls there, however often its device asks. -/
theorem State.On.stalls (h : s.On line p i)
    (hmode : p.mode ≠ 3) {op : Op}
    (hout : ∀ width, op.width line.side = some width →
      ¬ op.Inside s.memory (p.unitAddress (p.position i) width)) (n : ℕ) :
    transfers line (List.replicate n (.request line op)) s = [] := by
  induction n generalizing s with
  | zero => rfl
  | succ n ih =>
    have hnone : transferOf line s (.request line op) = none := by
      rw [← Option.not_isSome_iff_eq_none, h.own_isSome hmode op]
      rintro ⟨-, -, width, hwidth, hinside⟩
      exact hout width hwidth hinside
    rcases h.own op with ⟨-, hon⟩ | ⟨t, hsome, -⟩
    · rw [List.replicate_succ, transfers, hnone]
      refine ih hon fun width hwidth hinside => hout width hwidth ?_
      exact (Op.inside_congr (step_len s _) op _).mp hinside
    · rw [hnone] at hsome
      cases hsome

/-- A read of the byte at 1 MiB in a machine of 1 MiB: the block of one unit is never moved. -/
theorem outside_memory_stalls :
    State.Programmed ⟨writePorts (programming ⟨.master, 1⟩ 0x83 0 0 0 0 0x10 0x49)
        Controller.powerOn, ⟨List.replicate (2 ^ 20) 0⟩⟩ ⟨.master, 1⟩
        (Program.ofBytes 0 0 0 0 0x10 0x49) ∧
      ∀ n, transfers ⟨.master, 1⟩ (List.replicate n (.request ⟨.master, 1⟩ .readByte))
        ⟨writePorts (programming ⟨.master, 1⟩ 0x83 0 0 0 0 0x10 0x49) Controller.powerOn,
          ⟨List.replicate (2 ^ 20) 0⟩⟩ = [] := by
  have hprogrammed := programming_programmed ⟨Controller.powerOn, ⟨List.replicate (2 ^ 20) 0⟩⟩
    ⟨.master, 1⟩ 0x83 0 0 0 0 0x10 0x49 rfl rfl rfl
  refine ⟨hprogrammed, hprogrammed.on.stalls (by decide) fun width hwidth hinside => ?_⟩
  cases hwidth
  have hlt : (Program.ofBytes 0 0 0 0 0x10 0x49).unitAddress
      ((Program.ofBytes 0 0 0 0 0x10 0x49).position 0) .byte <
        Memory.len ⟨List.replicate (2 ^ 20) 0⟩ := hinside
  rw [Memory.len, List.length_replicate] at hlt
  exact absurd hlt (by decide)

end IzarraVM.Dma
