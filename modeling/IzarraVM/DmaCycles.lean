import IzarraVM.Dma

/-! What one cycle does to the pair: one channel steps or is refused, no other is touched. -/
namespace IzarraVM.Dma

inductive Width where
  | byte
  | word
  deriving DecidableEq, Repr

structure Registers where
  baseAddr : BitVec 16
  curAddr : BitVec 16
  baseCount : BitVec 16
  curCount : BitVec 16
  page : BitVec 8
  addrDecrement : Bool
  autoInit : Bool
  transferKind : BitVec 8
  transferMode : BitVec 8
  mask : Bool

namespace Channel

variable (c : Channel)

def registers : Registers where
  baseAddr := c.baseAddr
  curAddr := c.curAddr
  baseCount := c.baseCount
  curCount := c.curCount
  page := c.page
  addrDecrement := c.addrDecrement
  autoInit := c.autoInit
  transferKind := c.transferKind
  transferMode := c.transferMode
  mask := c.mask

theorem byteAddress_eq : c.byteAddress = c.page.toNat * 2 ^ 16 + c.curAddr.toNat := by
  unfold byteAddress
  rw [← Nat.shiftLeft_add_eq_or_of_lt c.curAddr.isLt, Nat.shiftLeft_eq]

theorem wordAddress_eq : c.wordAddress = c.page.toNat / 2 * 2 ^ 17 + 2 * c.curAddr.toNat := by
  have hpage : c.page.toNat &&& 0xfe = c.page.toNat / 2 * 2 := by
    have h : ∀ page : BitVec 8, page.toNat &&& 0xfe = page.toNat / 2 * 2 := by decide
    exact h c.page
  have haddr : c.curAddr.toNat <<< 1 < 2 ^ 17 := by
    have h := c.curAddr.isLt
    rw [Nat.shiftLeft_eq]
    omega
  have hshift : (c.page.toNat / 2 * 2) <<< 16 = (c.page.toNat / 2) <<< 17 := by
    rw [Nat.shiftLeft_eq, Nat.shiftLeft_eq]
    ring
  unfold wordAddress
  rw [hpage, hshift, ← Nat.shiftLeft_add_eq_or_of_lt haddr, Nat.shiftLeft_eq, Nat.shiftLeft_eq]
  ring

def unitAddress : Width → ℕ
  | .byte => c.byteAddress
  | .word => c.wordAddress

theorem unitAddress_congr {c c' : Channel} (h : c.registers = c'.registers) (width : Width) :
    c.unitAddress width = c'.unitAddress width := by
  have hpage : c.page = c'.page := congrArg Registers.page h
  have haddr : c.curAddr = c'.curAddr := congrArg Registers.curAddr h
  cases width <;> simp only [unitAddress, byteAddress, wordAddress, hpage, haddr]

theorem granted_unitAddress (width : Width) :
    c.granted.unitAddress width = c.unitAddress width := unitAddress_congr rfl width

theorem stepTransfer_reachedTc : c.stepTransfer.reachedTc = decide (c.curCount = 0) := by
  unfold stepTransfer
  dsimp only
  split_ifs <;> rfl

/-- What a step leaves depends on the registers alone. -/
theorem stepTransfer_registers_congr {c c' : Channel} (h : c.registers = c'.registers) :
    c.stepTransfer.registers = c'.stepTransfer.registers := by
  cases c
  cases c'
  simp only [registers, Registers.mk.injEq] at h
  obtain ⟨rfl, rfl, rfl, rfl, rfl, rfl, rfl, rfl, rfl, rfl⟩ := h
  unfold stepTransfer
  dsimp only
  split_ifs <;> rfl

end Channel

namespace Chip

variable (chip : Chip)

variable (ci : Fin 4)

@[simp] theorem channel_setChannel_self (c : Channel) :
    (chip.setChannel ci c).channel ci = c := Vector.getElem_set_self _

theorem channel_setChannel_ne {ci cj : Fin 4} (h : cj ≠ ci) (c : Channel) :
    (chip.setChannel ci c).channel cj = chip.channel cj :=
  Vector.getElem_set_ne ci.isLt cj.isLt fun heq => h (Fin.ext heq.symm)

@[simp] theorem setChannel_setChannel (c c' : Channel) :
    (chip.setChannel ci c).setChannel ci c' = chip.setChannel ci c' := by
  unfold setChannel
  dsimp only
  rw [Vector.set_set]

def terminal : Bool := hasBit chip.status ci

structure Cycled (chip chip' : Chip) (ci : Fin 4) (completed : Bool) : Prop where
  others : ∀ cj, cj ≠ ci → chip'.channel cj = chip.channel cj
  command : chip'.command = chip.command
  terminalOthers : ∀ cj, cj ≠ ci → chip'.terminal cj = chip.terminal cj
  refused : completed = false → (chip'.channel ci).registers = (chip.channel ci).registers ∧
    chip'.terminal ci = chip.terminal ci
  stepped : completed = true → (chip.channel ci).mask = false ∧
    (chip'.channel ci).registers = (chip.channel ci).stepTransfer.registers ∧
    (chip'.channel ci).reachedTc = decide ((chip.channel ci).curCount = 0) ∧
    chip'.terminal ci = (chip.terminal ci || decide ((chip.channel ci).curCount = 0))

variable {chip}

/-- A cycle that changes no register. -/
theorem Cycled.of_registers {chip' : Chip} {ci : Fin 4}
    (hothers : ∀ cj, cj ≠ ci → chip'.channel cj = chip.channel cj)
    (hcommand : chip'.command = chip.command) (hstatus : chip'.status = chip.status)
    (hregisters : (chip'.channel ci).registers = (chip.channel ci).registers) :
    chip.Cycled chip' ci false where
  others := hothers
  command := hcommand
  terminalOthers cj _ := by rw [terminal, hstatus, terminal]
  refused _ := ⟨hregisters, by rw [terminal, hstatus, terminal]⟩
  stepped h := nomatch h

theorem terminal_latched (ci cj : Fin 4) :
    hasBit (setBit chip.status ci) cj = (hasBit chip.status cj || decide (cj = ci)) := by
  rw [hasBit_setBit (by omega) (by omega)]
  simp only [Fin.ext_iff]

/-- The end of a cycle: the grant drops, unless a block goes on, and a terminal count is latched. -/
theorem finishCycle_eq (ci : Fin 4) (c : Channel) (completed : Bool) :
    ∃ active requestReg, (chip.setChannel ci c).finishCycle ci completed =
      { chip.setChannel ci { c with active } with
        status := if completed && c.reachedTc then setBit chip.status ci else chip.status
        requestReg } := by
  cases completed with
  | false =>
    refine ⟨false, chip.requestReg, ?_⟩
    simp [finishCycle]
    rfl
  | true =>
    unfold finishCycle
    simp only [channel_setChannel_self, setChannel_setChannel, Bool.not_true, Bool.false_eq_true,
      if_false, Bool.true_and]
    split_ifs
    · exact ⟨false, _, rfl⟩
    · exact ⟨false, _, rfl⟩
    · exact ⟨c.active, _, rfl⟩

/-- A cycle that was granted: `begun` is the channel with its grant, `c` what its transfer left. -/
theorem cycled_of_finish {ci : Fin 4} {begun c : Channel} {completed : Bool}
    (hbegun : begun.registers = (chip.channel ci).registers)
    (hrefused : completed = false → c.registers = begun.registers)
    (hstepped : completed = true → begun.mask = false ∧ c = begun.stepTransfer) :
    chip.Cycled (((chip.setChannel ci begun).setChannel ci c).finishCycle ci completed)
      ci completed := by
  rw [setChannel_setChannel]
  obtain ⟨active, requestReg, hfinish⟩ := chip.finishCycle_eq ci c completed
  rw [hfinish]
  have hothers : ∀ cj, cj ≠ ci →
      (chip.setChannel ci { c with active }).channel cj = chip.channel cj :=
    fun cj hne => chip.channel_setChannel_ne hne _
  cases completed with
  | false =>
    refine Cycled.of_registers hothers rfl rfl ?_
    have hself := chip.channel_setChannel_self ci { c with active }
    exact (congrArg Channel.registers hself).trans ((hrefused rfl).trans hbegun)
  | true =>
    obtain ⟨hmask, rfl⟩ := hstepped rfl
    have hself := chip.channel_setChannel_self ci { begun.stepTransfer with active }
    have hcount : begun.curCount = (chip.channel ci).curCount := congrArg Registers.curCount hbegun
    have htc : begun.stepTransfer.reachedTc = decide ((chip.channel ci).curCount = 0) := by
      rw [begun.stepTransfer_reachedTc, hcount]
    have hterminal (cj : Fin 4) : terminal
        { chip.setChannel ci { begun.stepTransfer with active } with
          status := if true && begun.stepTransfer.reachedTc then setBit chip.status ci
            else chip.status
          requestReg } cj =
        (chip.terminal cj || decide (cj = ci) && decide ((chip.channel ci).curCount = 0)) := by
      rw [htc]
      unfold terminal
      dsimp only
      by_cases hzero : (chip.channel ci).curCount = 0
      · simpa [hzero] using chip.terminal_latched ci cj
      · simp only [hzero, decide_false, Bool.and_false, Bool.false_eq_true, if_false, Bool.or_false]
    refine ⟨hothers, rfl, fun cj hne => ?_, nofun, fun _ => ⟨?_, ?_, ?_, ?_⟩⟩
    · rw [hterminal]
      simp [hne]
    · exact (congrArg Registers.mask hbegun).symm.trans hmask
    · exact (congrArg Channel.registers hself).trans
        (Channel.stepTransfer_registers_congr hbegun)
    · exact (congrArg Channel.reachedTc hself).trans htc
    · rw [hterminal]
      simp

variable {α : Type}

section Datapath

variable (chip) (ci : Fin 4) (kind : BitVec 8) (width : Width) (access : ℕ → Memory → Option α × Memory)
  (m : Memory)

def unitCycle : Option α × Chip × Memory :=
  chip.cycle ci (fun c => c.transfer kind (access (c.unitAddress width))) m

def Ready : Prop :=
  ¬ (chip.controllerDisabled ∨ (chip.channel ci).mask ∨ (chip.channel ci).transferMode = 3 ∨
      ¬ chip.requestActive ci ∧ ¬ ((chip.channel ci).transferMode = 2 ∧ (chip.channel ci).active)) ∧
    (chip.channel ci).transferKind = kind

/-- Where the channel is ready a unit is moved by the access at its address; otherwise memory is
left alone. -/
theorem unitCycle_spec :
    chip.Cycled (chip.unitCycle ci kind width access m).2.1 ci
        (chip.unitCycle ci kind width access m).1.isSome ∧
      ((chip.Ready ci kind ∧ access ((chip.channel ci).unitAddress width) m =
          ((chip.unitCycle ci kind width access m).1, (chip.unitCycle ci kind width access m).2.2)) ∨
        (¬ chip.Ready ci kind ∧ (chip.unitCycle ci kind width access m).1 = none ∧
          (chip.unitCycle ci kind width access m).2.2 = m)) := by
  unfold unitCycle cycle beginCycle
  dsimp only
  split_ifs with hrefuse
  · exact ⟨Cycled.of_registers (fun _ _ => rfl) rfl rfl rfl,
      Or.inr ⟨fun hready => hready.1 hrefuse, rfl, rfl⟩⟩
  · simp only [channel_setChannel_self]
    have hmask : ¬ (chip.channel ci).mask = true := fun h => hrefuse (Or.inr (Or.inl h))
    unfold Channel.transfer
    split_ifs with hkind
    · exact ⟨cycled_of_finish rfl (fun _ => rfl) nofun,
        Or.inr ⟨fun hready => hkind.elim hmask (· hready.2), rfl, rfl⟩⟩
    · have hready : chip.Ready ci kind := ⟨hrefuse, not_not.mp fun hne => hkind (Or.inr hne)⟩
      rw [(chip.channel ci).granted_unitAddress]
      split
      · next h => exact ⟨cycled_of_finish rfl (fun _ => rfl) nofun, Or.inl ⟨hready, h⟩⟩
      · next h =>
        exact ⟨cycled_of_finish rfl nofun fun _ => ⟨Bool.eq_false_iff.mpr hmask, rfl⟩,
          Or.inl ⟨hready, h⟩⟩

end Datapath

structure Aside (chip chip' : Chip) (ci : Fin 4) : Prop where
  others : ∀ cj, cj ≠ ci → chip'.channel cj = chip.channel cj
  command : chip'.command = chip.command
  status : chip'.status = chip.status
  registers : (chip'.channel ci).registers = (chip.channel ci).registers
  reachedTc : (chip'.channel ci).reachedTc = (chip.channel ci).reachedTc

theorem setHardwareRequest_aside (ci : Fin 4) (asserted : Bool) :
    chip.Aside (chip.setHardwareRequest ci asserted) ci := by
  unfold setHardwareRequest
  dsimp only
  refine ⟨fun cj hne => chip.channel_setChannel_ne hne _, rfl, rfl, ?_, ?_⟩
  · rw [channel_setChannel_self]
    split_ifs <;> rfl
  · rw [channel_setChannel_self]
    split_ifs <;> rfl

/-- A cycle between two changes of the request line. -/
theorem Aside.between {before granted served after : Chip} {ci : Fin 4} {completed : Bool}
    (hbefore : before.Aside granted ci) (h : granted.Cycled served ci completed)
    (hafter : served.Aside after ci) : before.Cycled after ci completed := by
  have hcount : (granted.channel ci).curCount = (before.channel ci).curCount :=
    congrArg Registers.curCount hbefore.registers
  have hterminal (cj : Fin 4) : granted.terminal cj = before.terminal cj := by
    rw [terminal, hbefore.status, terminal]
  have hterminal' (cj : Fin 4) : after.terminal cj = served.terminal cj := by
    rw [terminal, hafter.status, terminal]
  refine ⟨fun cj hne => ?_, ?_, fun cj hne => ?_, fun hnone => ?_, fun hsome => ?_⟩
  · rw [hafter.others cj hne, h.others cj hne, hbefore.others cj hne]
  · rw [hafter.command, h.command, hbefore.command]
  · rw [hterminal', h.terminalOthers cj hne, hterminal]
  · obtain ⟨hregisters, hstatus⟩ := h.refused hnone
    rw [hterminal', hstatus, hterminal, hafter.registers, hregisters, hbefore.registers]
    exact ⟨rfl, rfl⟩
  · obtain ⟨hmask, hregisters, htc, hstatus⟩ := h.stepped hsome
    rw [hcount, hterminal] at hstatus
    rw [hcount] at htc
    refine ⟨(congrArg Registers.mask hbefore.registers).symm.trans hmask, ?_, ?_, ?_⟩
    · rw [hafter.registers, hregisters]
      exact Channel.stepTransfer_registers_congr hbefore.registers
    · rw [hafter.reachedTc, htc]
    · rw [hterminal', hstatus]

/-! The memory-to-memory copy steps channels 0 and 1 and no other. -/

structure CopyAside (chip chip' : Chip) : Prop where
  others : ∀ cj, cj ≠ 0 → cj ≠ 1 → chip'.channel cj = chip.channel cj
  command : chip'.command = chip.command
  terminalOthers : ∀ cj, cj ≠ 1 → chip'.terminal cj = chip.terminal cj

theorem CopyAside.trans {a b c : Chip} (hab : a.CopyAside b) (hbc : b.CopyAside c) :
    a.CopyAside c where
  others cj h0 h1 := by rw [hbc.others cj h0 h1, hab.others cj h0 h1]
  command := by rw [hbc.command, hab.command]
  terminalOthers cj h1 := by rw [hbc.terminalOthers cj h1, hab.terminalOthers cj h1]

theorem copyAside_setChannel (ci : Fin 4) (hci : ci = 0 ∨ ci = 1) (c : Channel) :
    chip.CopyAside (chip.setChannel ci c) where
  others cj h0 h1 := chip.channel_setChannel_ne (by rintro rfl; exact hci.elim h0 h1) c
  command := rfl
  terminalOthers _ _ := rfl

theorem copyAside_releaseCopy : chip.CopyAside chip.releaseCopy :=
  (chip.copyAside_setChannel 0 (Or.inl rfl) _).trans
    (copyAside_setChannel 1 (Or.inr rfl) _)

theorem copyAside_latch (requestReg : BitVec 8) :
    chip.CopyAside { chip with status := setBit chip.status 1, requestReg } where
  others _ _ _ := rfl
  command := rfl
  terminalOthers cj h1 := by
    have h := chip.terminal_latched 1 cj
    rw [decide_eq_false h1, Bool.or_false] at h
    exact h

theorem copyLoop_aside (rounds : ℕ) (chip : Chip) (copied : ℕ) (m : Memory) :
    chip.CopyAside (copyLoop rounds chip copied m).2.1 ∧
      (copyLoop rounds chip copied m).2.2.len = m.len := by
  induction rounds generalizing chip copied m with
  | zero => exact ⟨⟨fun _ _ _ => rfl, rfl, fun _ _ => rfl⟩, rfl⟩
  | succ rounds ih =>
    rw [copyLoop]
    split
    · exact ⟨copyAside_releaseCopy, rfl⟩
    · split
      · exact ⟨copyAside_releaseCopy, rfl⟩
      · next m' hwrite =>
        have hround : chip.CopyAside (chip.setChannel 1 (chip.channel 1).stepTransfer).stepSource :=
          (chip.copyAside_setChannel 1 (Or.inr rfl) _).trans
            (copyAside_setChannel 0 (Or.inl rfl) _)
        dsimp only
        split_ifs
        · exact ⟨hround.trans ((copyAside_latch _).trans copyAside_releaseCopy),
            Memory.writeU8_len hwrite⟩
        · obtain ⟨haside, hlen⟩ := ih
            (chip.setChannel 1 (chip.channel 1).stepTransfer).stepSource (copied + 1) m'
          exact ⟨hround.trans haside, hlen.trans (Memory.writeU8_len hwrite)⟩

theorem memToMem_aside (chip : Chip) (m : Memory) :
    chip.CopyAside (chip.memToMem m).2.1 ∧ (chip.memToMem m).2.2.len = m.len := by
  have hkeep : chip.CopyAside chip := ⟨fun _ _ _ => rfl, rfl, fun _ _ => rfl⟩
  unfold memToMem
  split_ifs
  · exact ⟨hkeep, rfl⟩
  · exact ⟨hkeep, rfl⟩
  · obtain ⟨haside, hlen⟩ := copyLoop_aside _ _ 0 m
    exact ⟨((chip.copyAside_setChannel 0 (Or.inl rfl) _).trans
      (copyAside_setChannel 1 (Or.inr rfl) _)).trans haside, hlen⟩

end Chip

end IzarraVM.Dma
