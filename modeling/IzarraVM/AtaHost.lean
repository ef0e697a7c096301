import IzarraVM.AtaStatus
import IzarraVM.AtaTaskFile
import IzarraVM.AtaRange

/-! A host moving the data of a command: what it does to the disk, and what it sees of it. -/
namespace IzarraVM.Ata

inductive HostStep
  | advance (ticks : ℕ)
  | read (port prefixTicks : ℕ)
  | writeData (value : UInt8) (prefixTicks : ℕ)
  | takeIrq

def HostStep.event : HostStep → Event
  | .advance ticks => .advance ticks
  | .read port prefixTicks => .readPort port prefixTicks
  | .writeData value prefixTicks => .writePort AtaDisk.primaryCmdBase value prefixTicks
  | .takeIrq => .takeIrq

structure Log where
  taken : List UInt8
  given : List UInt8
  blocks : List ℕ

namespace AtaDisk

variable (d : AtaDisk)

def drqSet : Bool := d.status &&& Status.drq ≠ 0

def bsySet : Bool := d.status &&& Status.bsy ≠ 0

def taken : HostStep → List UInt8
  | .read port prefixTicks =>
    if port = primaryCmdBase ∧ d.drqSet then (d.readPortAt port prefixTicks).1.toList else []
  | _ => []

def given : HostStep → List UInt8
  | .writeData value _ => if d.drqSet then [value] else []
  | _ => []

def opened (d next : AtaDisk) : List ℕ :=
  if next.drqSet ∧ ¬ d.drqSet then [next.buffer.length] else []

def watch (s : AtaDisk × Log) (h : HostStep) : AtaDisk × Log :=
  (s.1.step h.event,
    { taken := s.2.taken ++ s.1.taken h
      given := s.2.given ++ s.1.given h
      blocks := s.2.blocks ++ s.1.opened (s.1.step h.event) })

def watched (steps : List HostStep) : AtaDisk × Log :=
  Runs.exec watch steps (d, ⟨[], [], []⟩)

structure Ready (d : AtaDisk) : Prop where
  stage : d.Stage
  phase : d.phase = .idle
  pending : d.pendingCommand = none
  dma : d.dmaRequest = none
  master : d.task.masterSelected

structure Asks (d : AtaDisk) (start count : ℕ) : Prop where
  decodes : d.commandLba = some (start, count)
  inRange : start + count ≤ d.totalSectors

variable {d : AtaDisk}

variable {start count : ℕ}

theorem Asks.lt (h : d.Asks start count) :
    start + count < 2 ^ 28 :=
  Nat.lt_of_le_of_lt (h.inRange.trans (Nat.min_le_right _ _)) (by decide)

theorem Asks.le_image (h : d.Asks start count) :
    start + count ≤ d.medium.image.length :=
  (h.inRange.trans (Nat.min_le_left _ _)).trans (Nat.mod_le _ _)

theorem Asks.count_pos (h : d.Asks start count) : 0 < count := by
  have hcount : count = d.task.count := by
    have hdec := h.decodes
    unfold commandLba at hdec
    split at hdec
    · exact (congrArg Prod.snd (Option.some.inj hdec)).symm
    · obtain ⟨lba, -, heq⟩ := Option.bind_eq_some_iff.mp hdec
      exact (congrArg Prod.snd (Option.some.inj heq)).symm
  rw [hcount, TaskFile.count]
  split
  · decide
  · rename_i hne
    apply Nat.pos_of_ne_zero
    exact fun hzero => hne (UInt8.toNat_inj.mp hzero)

/-- A command to a disk at rest reaches the command set. -/
theorem writePortAt_command (h : d.Ready) (command : UInt8) (prefixTicks : ℕ) :
    d.step (.writePort (primaryCmdBase + 7) command prefixTicks) =
      d.serve prefixTicks (request d.task command) := by
  have hbsy : ¬ (d.status &&& Status.bsy ≠ 0) := by
    rw [h.stage.bsy_iff, CommandPending, h.pending, h.dma]
    simp
  have hfree : ¬ (d.dmaRequest.isSome ∨ d.pendingCommand.isSome ∨ d.phase ≠ .idle) := by
    rw [h.dma, h.pending, h.phase]
    simp
  show d.writePortAt (primaryCmdBase + 7) command prefixTicks = _
  have hport : d.writePortAt (primaryCmdBase + 7) command prefixTicks =
      d.writeCommand command prefixTicks := by
    unfold writePortAt
    rw [if_neg (by decide), if_neg (by decide), if_neg (fun hb => hbsy hb.1)]
    rfl
  rw [hport, writeCommand, if_neg hfree, if_neg (not_not.mpr h.master)]

structure Through (d₀ : AtaDisk) (start count n : ℕ) (d : AtaDisk) : Prop where
  lba : d.pioLba = start + n
  left : d.pioSectorsRemaining = count - n
  task : d.task = d₀.task.passed start n
  dma : d.dmaRequest = none
  sectors : d.logicalSectors = d₀.logicalSectors
  heads : d.logicalHeads = d₀.logicalHeads

theorem beginPio_eq (h : d.Asks start count)
    (action : PendingAction) (prefixTicks : ℕ) :
    d.beginPio action prefixTicks =
      { d with pioLba := start, pioSectorsRemaining := count, lastAccessBytes := 0 }.scheduleAt
        action commandLatencyTicks prefixTicks := by
  have hlt := h.lt
  have hrange := h.inRange
  unfold beginPio
  rw [h.decodes]
  show (if _ then _ else _) = _
  rw [saturatingAdd32_eq (by omega), if_neg (by omega)]

theorem beginPio_through (h : d.Asks start count)
    (hdma : d.dmaRequest = none) (action : PendingAction) (prefixTicks : ℕ) :
    Through d start count 0 (d.beginPio action prefixTicks) := by
  rw [beginPio_eq h]
  exact ⟨rfl, rfl, rfl, hdma, rfl, rfl⟩

/-- One more sector through: the count goes down and the address to the next sector. -/
theorem Through.countSector {d₀ d : AtaDisk} {start count n : ℕ}
    (h : Through d₀ start count n d) (hn : n < count) (hlt : start + count < 2 ^ 28) :
    Through d₀ start count (n + 1) d.countSector := by
  have hleft : 0 < d.pioSectorsRemaining := by
    rw [h.left]
    omega
  have hnext : saturatingAdd32 d.pioLba 1 = start + n + 1 := by
    rw [h.lba, saturatingAdd32_eq (by omega)]
  unfold AtaDisk.countSector
  rw [if_pos hleft]
  refine ⟨?_, ?_, ?_, h.dma, h.sectors, h.heads⟩
  · exact hnext
  · show d.pioSectorsRemaining - 1 = _
    rw [h.left]
    omega
  · show { d.task with sectorCount := d.task.sectorCount - 1 }.setAddress _ = _
    rw [hnext, h.task]
    exact TaskFile.passed_succ _ _ _

theorem countSector_medium (d : AtaDisk) : d.countSector.medium = d.medium := by
  unfold countSector
  split <;> rfl

/-- The data port written is the data register. -/
theorem step_writeData (d : AtaDisk) (value : UInt8) (prefixTicks : ℕ) :
    d.step (HostStep.writeData value prefixTicks).event = d.writeDataByte value prefixTicks := by
  show d.writePortAt primaryCmdBase value prefixTicks = _
  unfold writePortAt
  rw [if_neg (by decide), if_neg (by decide), if_neg (fun hb => hb.2 rfl)]
  rfl

/-- A step that neither moves the clock of a command nor a data byte leaves the disk as it is,
but for the interrupt latch. -/
theorem step_quiet (h : HostStep)
    (hclock : d.pendingCommand = none ∨ ∀ ticks, h ≠ .advance ticks)
    (hin : d.phase ≠ .dataIn ∨ ∀ p, h ≠ .read primaryCmdBase p)
    (hout : d.phase ≠ .dataOut ∨ ∀ v p, h ≠ .writeData v p) :
    ∃ irq, d.step h.event = { d with irqPending := irq } := by
  cases h with
  | advance ticks =>
    have hnone := hclock.resolve_right fun hno => hno ticks rfl
    refine ⟨d.irqPending, ?_⟩
    show d.advanceMasterTicks ticks = d
    rw [advanceMasterTicks, hnone]
  | read port prefixTicks =>
    by_cases hport : port = primaryCmdBase
    · subst hport
      have hne := hin.resolve_right fun hno => hno prefixTicks rfl
      refine ⟨d.irqPending, ?_⟩
      show (d.readDataByte prefixTicks).2 = d
      rw [readDataByte, if_pos hne]
    · rcases readPortAt_eq hport prefixTicks (d := d) with heq | heq
      · exact ⟨d.irqPending, heq⟩
      · exact ⟨false, heq⟩
  | writeData value prefixTicks =>
    have hne := hout.resolve_right fun hno => hno value prefixTicks rfl
    refine ⟨d.irqPending, ?_⟩
    rw [step_writeData, writeDataByte, if_pos hne]
  | takeIrq => exact ⟨false, rfl⟩

/-- An advance by all that is left of a deadline meets it. -/
theorem step_due {t : ℕ} {action : PendingAction}
    (hpending : d.pendingCommand = some ⟨t, action⟩) :
    d.step (HostStep.advance t).event = { d with pendingCommand := none }.finishPending action := by
  show d.advanceMasterTicks t = _
  rw [advanceMasterTicks, hpending]
  exact if_neg (Nat.lt_irrefl t)

/-- A disk with a command on the clock waits on, or finishes it. -/
theorem step_scheduled {t : ℕ} {action : PendingAction}
    (hpending : d.pendingCommand = some ⟨t, action⟩) (hphase : d.phase = .idle) (h : HostStep) :
    (∃ irq t', d.step h.event =
      { d with irqPending := irq, pendingCommand := some ⟨t', action⟩ }) ∨
    d.step h.event = { d with pendingCommand := none }.finishPending action := by
  by_cases hclock : ∃ ticks, h = .advance ticks
  · obtain ⟨ticks, rfl⟩ := hclock
    have hstep : d.step (HostStep.advance ticks).event = d.advanceMasterTicks ticks := rfl
    rw [hstep, advanceMasterTicks, hpending]
    by_cases hearly : ticks < t
    · left
      exact ⟨d.irqPending, t - ticks, if_pos hearly⟩
    · right
      exact if_neg hearly
  · left
    obtain ⟨irq, heq⟩ := step_quiet h (.inr fun ticks ht => hclock ⟨ticks, ht⟩)
      (.inl (by rw [hphase]; decide)) (.inl (by rw [hphase]; decide))
    refine ⟨irq, t, heq.trans ?_⟩
    rw [← hpending]

end AtaDisk

end IzarraVM.Ata
