import IzarraVM.Ata

/-! What the status register says of the disk, in every state it can reach. -/
namespace IzarraVM.Ata

namespace AtaDisk

def CommandPending (d : AtaDisk) : Prop := d.pendingCommand.isSome ∨ d.dmaRequest.isSome

def BlockOpen (d : AtaDisk) : Prop := d.phase ≠ .idle

inductive StageOf (phase : Phase) (pending : Option PendingCommand) (dma : Option DmaRequest)
    (status : UInt8) : Prop
  | resting (hphase : phase = .idle) (hpending : pending = none) (hdma : dma = none)
      (hstatus : status &&& (Status.bsy ||| Status.drq) = 0)
  | scheduled (hphase : phase = .idle) (hpending : pending.isSome) (hdma : dma = none)
      (hstatus : status = Status.bsy)
  | armed (hphase : phase = .idle) (hpending : pending = none) (hdma : dma.isSome)
      (hstatus : status = Status.bsy)
  | moving (hphase : phase ≠ .idle) (hpending : pending = none) (hdma : dma = none)
      (hstatus : status = Status.drdy ||| Status.drq ||| Status.dsc)

/-- Only these fields matter to the stage. -/
def Stage (d : AtaDisk) : Prop := StageOf d.phase d.pendingCommand d.dmaRequest d.status

theorem done_status : (Status.drdy ||| Status.dsc) &&& (Status.bsy ||| Status.drq) = 0 := by
  decide

theorem aborted_status : (Status.drdy ||| Status.err) &&& (Status.bsy ||| Status.drq) = 0 := by
  decide

theorem new_stage (image : List UInt8) (sectorCacheEnabled : Bool) :
    (new image sectorCacheEnabled).Stage := .resting rfl rfl rfl done_status

variable {d : AtaDisk}

theorem scheduleAt_stage (hdma : d.dmaRequest = none) (action : PendingAction)
    (ticks prefixTicks : ℕ) : (d.scheduleAt action ticks prefixTicks).Stage :=
  .scheduled rfl rfl hdma rfl

theorem completeOk_stage (d : AtaDisk) : d.completeOk.Stage :=
  .resting rfl rfl rfl done_status

theorem abort_stage (d : AtaDisk) : d.abort.Stage := .resting rfl rfl rfl aborted_status

theorem openBlock_stage (hpending : d.pendingCommand = none)
    (hdma : d.dmaRequest = none) {phase : Phase} (hphase : phase ≠ .idle) (buffer : List UInt8) :
    (d.openBlock phase buffer).Stage := .moving hphase hpending hdma rfl

theorem raiseIrq_stage (h : d.Stage) : d.raiseIrq.Stage := h

theorem beginPio_stage (hdma : d.dmaRequest = none) (action : PendingAction)
    (prefixTicks : ℕ) : (d.beginPio action prefixTicks).Stage := by
  unfold beginPio
  split
  · exact scheduleAt_stage hdma _ _ _
  · split
    · exact scheduleAt_stage hdma _ _ _
    · apply scheduleAt_stage
      exact hdma

theorem beginDma_stage (hpending : d.pendingCommand = none)
    (direction : DmaDirection) : (d.beginDma direction).Stage := by
  unfold beginDma
  split
  · split
    · exact abort_stage d
    · exact .armed rfl hpending rfl rfl
  · exact abort_stage d

theorem writeCommand_stage (h : d.Stage) (command : UInt8) (prefixTicks : ℕ) :
    (d.writeCommand command prefixTicks).Stage := by
  unfold writeCommand
  split
  · exact h
  · rename_i hfree
    -- a command that is taken finds the disk at rest
    have hdma : d.dmaRequest = none := by
      apply Option.not_isSome_iff_eq_none.mp
      exact fun hd => hfree (.inl hd)
    have hpending : d.pendingCommand = none := by
      apply Option.not_isSome_iff_eq_none.mp
      exact fun hp => hfree (.inr (.inl hp))
    split
    · exact scheduleAt_stage hdma _ _ _
    · cases request d.task command with
      | schedule action => exact scheduleAt_stage hdma _ _ _
      | readSectors => exact beginPio_stage hdma _ _
      | writeSectors => exact beginPio_stage hdma _ _
      | dma direction => exact beginDma_stage hpending _

@[simp] theorem countSector_stage_fields (d : AtaDisk) :
    d.countSector.phase = d.phase ∧ d.countSector.pendingCommand = d.pendingCommand ∧
      d.countSector.dmaRequest = d.dmaRequest := by
  unfold countSector
  split <;> exact ⟨rfl, rfl, rfl⟩

theorem applySetFeatures_stage (d : AtaDisk) (feature mode : UInt8) :
    (d.applySetFeatures feature mode).Stage := by
  unfold applySetFeatures
  split
  · exact completeOk_stage _
  · split
    · exact completeOk_stage _
    · split
      · exact completeOk_stage _
      · split
        · exact completeOk_stage _
        · exact abort_stage _

section Finish

variable {d : AtaDisk} (hphase : d.phase = .idle) (hpending : d.pendingCommand = none)
  (hdma : d.dmaRequest = none)

include hpending hdma

theorem prepareReadSector_stage : d.prepareReadSector.Stage := by
  unfold prepareReadSector
  split
  · exact abort_stage _
  · rename_i read
    apply raiseIrq_stage
    apply openBlock_stage
    · rw [show _ = d.pendingCommand from congrArg (·.2.pendingCommand) read.symm, hpending]
    · rw [show _ = d.dmaRequest from congrArg (·.2.dmaRequest) read.symm, hdma]
    · decide

theorem prepareWriteSector_stage (raise : Bool) : (d.prepareWriteSector raise).Stage := by
  have hopen := openBlock_stage hpending hdma (show Phase.dataOut ≠ .idle by decide)
    (List.replicate 512 0)
  cases raise with
  | true => exact raiseIrq_stage hopen
  | false => exact hopen

theorem sectorStored_stage : d.sectorStored.Stage := by
  unfold sectorStored
  split
  · exact prepareWriteSector_stage hpending hdma true
  · exact raiseIrq_stage (.resting rfl hpending hdma done_status)

theorem commitWriteSector_stage : d.commitWriteSector.Stage := by
  unfold commitWriteSector
  split
  · exact abort_stage _
  · rename_i written hwrite
    obtain ⟨m, -, rfl⟩ := Option.map_eq_some_iff.mp hwrite
    apply sectorStored_stage
    · exact (countSector_stage_fields _).2.1.trans hpending
    · exact (countSector_stage_fields _).2.2.trans hdma

include hphase

theorem finishPending_stage (action : PendingAction) : (d.finishPending action).Stage := by
  cases action with
  | prepareIdentify => exact raiseIrq_stage (openBlock_stage hpending hdma (by decide) _)
  | prepareRead => exact prepareReadSector_stage hpending hdma
  | prepareWrite => exact prepareWriteSector_stage hpending hdma false
  | commitWrite => exact commitWriteSector_stage hpending hdma
  | completeOk => exact completeOk_stage _
  | abort => exact abort_stage _
  | initializeParameters sectors heads => exact completeOk_stage _
  | setFeatures feature mode => exact applySetFeatures_stage d feature mode
  | diagnostic => exact .resting hphase hpending hdma done_status
  | checkPower => exact completeOk_stage _
  | flushCache => exact completeOk_stage _

end Finish

theorem advanceMasterTicks_stage (h : d.Stage) (ticks : ℕ) :
    (d.advanceMasterTicks ticks).Stage := by
  unfold advanceMasterTicks
  split
  · exact h
  · rename_i pending hp
    cases h with
    | resting h₁ h₂ h₃ h₄ => rw [h₂] at hp; cases hp
    | armed h₁ h₂ h₃ h₄ => rw [h₂] at hp; cases hp
    | moving h₁ h₂ h₃ h₄ => rw [h₂] at hp; cases hp
    | scheduled h₁ h₂ h₃ h₄ =>
      split
      · exact .scheduled h₁ rfl h₃ h₄
      · apply finishPending_stage
        · exact h₁
        · rfl
        · exact h₃

theorem blockDrained_stage (hphase : d.phase = .idle)
    (hpending : d.pendingCommand = none) (hdma : d.dmaRequest = none) (prefixTicks : ℕ) :
    (d.blockDrained prefixTicks).Stage := by
  unfold blockDrained
  split
  · exact scheduleAt_stage hdma _ _ _
  · exact .resting hphase hpending hdma done_status

theorem readDataByte_stage (h : d.Stage) (prefixTicks : ℕ) :
    (d.readDataByte prefixTicks).2.Stage := by
  unfold readDataByte
  split
  · exact h
  · rename_i hphase
    have hin : d.phase = .dataIn := not_not.mp hphase
    cases h with
    | resting h₁ h₂ h₃ h₄ => rw [h₁] at hin; cases hin
    | armed h₁ h₂ h₃ h₄ => rw [h₁] at hin; cases hin
    | scheduled h₁ h₂ h₃ h₄ => rw [h₁] at hin; cases hin
    | moving h₁ h₂ h₃ h₄ =>
      show (if _ then _ else _ : AtaDisk).Stage
      split
      · exact .moving h₁ h₂ h₃ h₄
      · apply blockDrained_stage
        · exact (countSector_stage_fields _).1
        · exact (countSector_stage_fields _).2.1.trans h₂
        · exact (countSector_stage_fields _).2.2.trans h₃

theorem writeDataByte_stage (h : d.Stage) (value : UInt8) (prefixTicks : ℕ) :
    (d.writeDataByte value prefixTicks).Stage := by
  unfold writeDataByte
  split
  · exact h
  · rename_i hphase
    have hout : d.phase = .dataOut := not_not.mp hphase
    cases h with
    | resting h₁ h₂ h₃ h₄ => rw [h₁] at hout; cases hout
    | armed h₁ h₂ h₃ h₄ => rw [h₁] at hout; cases hout
    | scheduled h₁ h₂ h₃ h₄ => rw [h₁] at hout; cases hout
    | moving h₁ h₂ h₃ h₄ =>
      have hstore : (d.storeDataByte value).Stage ∧ (d.storeDataByte value).dmaRequest = none := by
        unfold storeDataByte
        split
        · exact ⟨.moving h₁ h₂ h₃ h₄, h₃⟩
        · exact ⟨.moving h₁ h₂ h₃ h₄, h₃⟩
      unfold blockFilled
      split
      · exact hstore.1
      · exact scheduleAt_stage hstore.2 _ _ _

/-- Every register but the data port reads without moving the disk on. -/
theorem readPortAt_eq {port : ℕ} (hport : port ≠ primaryCmdBase)
    (prefixTicks : ℕ) : (d.readPortAt port prefixTicks).2 = d ∨
      (d.readPortAt port prefixTicks).2 = { d with irqPending := false } := by
  unfold readPortAt
  split
  · exact .inl rfl
  · split
    · exact .inl rfl
    · have hne : port - primaryCmdBase ≠ 0 := by omega
      split
      · rename_i hzero
        exact absurd hzero hne
      all_goals first
        | exact .inl rfl
        | exact .inr rfl

@[simp] theorem readPortAt_data (d : AtaDisk) (prefixTicks : ℕ) :
    d.readPortAt primaryCmdBase prefixTicks =
      (some (d.readDataByte prefixTicks).1, (d.readDataByte prefixTicks).2) := rfl

theorem readRange_fields (n : ℕ) : ∀ (d : AtaDisk) (lba : ℕ),
    ∃ m : Medium, (d.readRange lba n).2 = { d with medium := m } := by
  induction n with
  | zero => exact fun d lba => ⟨d.medium, rfl⟩
  | succ n ih =>
    intro d lba
    unfold readRange
    split
    · rename_i d' read
      obtain rfl : (d.readLba lba).2 = d' := congrArg Prod.snd read
      exact ⟨(d.medium.readLba lba).2, rfl⟩
    · rename_i sector d' read
      obtain rfl : (d.readLba lba).2 = d' := congrArg Prod.snd read
      obtain ⟨m, hm⟩ := ih (d.readLba lba).2 (lba + 1)
      exact ⟨m, hm⟩

variable (h : d.Stage)
include h

theorem readPortAt_stage (port prefixTicks : ℕ) : (d.readPortAt port prefixTicks).2.Stage := by
  by_cases hport : port = primaryCmdBase
  · subst hport
    exact readDataByte_stage h prefixTicks
  · rcases readPortAt_eq hport prefixTicks (d := d) with heq | heq <;> rw [heq]
    · exact h
    · exact h

theorem writePortAt_stage (port : ℕ) (value : UInt8)
    (prefixTicks : ℕ) : (d.writePortAt port value prefixTicks).Stage := by
  unfold writePortAt
  split
  · show (if _ then _ else _ : AtaDisk).Stage
    split
    · exact .resting rfl rfl rfl done_status
    · exact h
  · split
    · exact h
    · split
      · exact h
      · split
        · exact writeDataByte_stage h value prefixTicks
        case h_8 => exact writeCommand_stage h value prefixTicks
        all_goals exact h

theorem readDmaPayload_stage : d.readDmaPayload.2.Stage := by
  unfold readDmaPayload
  split
  · exact h
  · split
    · exact h
    · rename_i request _ _
      obtain ⟨m, hm⟩ := readRange_fields request.sectors d request.lba
      rw [hm]
      exact h

theorem completeDmaRead_stage (bytes : ℕ) : (d.completeDmaRead bytes).Stage := by
  unfold completeDmaRead
  split
  · exact h
  · split
    · exact abort_stage _
    · exact completeOk_stage _

theorem completeDmaWrite_stage (data : List UInt8) : (d.completeDmaWrite data).2.Stage := by
  unfold completeDmaWrite
  split
  · exact h
  · split
    · exact abort_stage _
    · split
      · exact abort_stage _
      · exact completeOk_stage _

theorem abortDma_stage : d.abortDma.Stage := by
  unfold abortDma
  split
  · exact abort_stage _
  · exact h

theorem writeLba_stage (lba : ℕ) (data : List UInt8) : ((d.writeLba lba data).getD d).Stage := by
  unfold writeLba
  cases d.medium.writeLba lba data with
  | none => exact h
  | some m => exact h

theorem step_stage (event : Event) : (d.step event).Stage := by
  cases event with
  | readPort port prefixTicks => exact readPortAt_stage h port prefixTicks
  | writePort port value prefixTicks => exact writePortAt_stage h port value prefixTicks
  | advance ticks => exact advanceMasterTicks_stage h ticks
  | takeIrq => exact h
  | takeAccessBytes => exact h
  | dmaPayload => exact readDmaPayload_stage h
  | dmaReadDone bytes => exact completeDmaRead_stage h bytes
  | dmaWriteDone data => exact completeDmaWrite_stage h data
  | dmaAbort => exact abortDma_stage h
  | serviceRead lba => exact h
  | serviceWrite lba data => exact writeLba_stage h lba data

theorem run_stage (events : List Event) : (Runs.exec step events d).Stage := by
  induction events generalizing d with
  | nil => exact h
  | cons event rest ih => exact ih (step_stage h event)

theorem Stage.bsy_iff : d.status &&& Status.bsy ≠ 0 ↔ d.CommandPending := by
  unfold CommandPending
  cases h with
  | resting h₁ h₂ h₃ h₄ =>
    have hclear : d.status &&& Status.bsy = 0 := by
      rw [show Status.bsy = (Status.bsy ||| Status.drq) &&& Status.bsy from rfl,
        ← UInt8.and_assoc, h₄, UInt8.zero_and]
    simp [hclear, h₂, h₃]
  | scheduled h₁ h₂ h₃ h₄ =>
    rw [h₄]
    exact iff_of_true (by decide) (.inl h₂)
  | armed h₁ h₂ h₃ h₄ =>
    rw [h₄]
    exact iff_of_true (by decide) (.inr h₃)
  | moving h₁ h₂ h₃ h₄ =>
    rw [h₄, h₂, h₃]
    decide

theorem Stage.drq_iff : d.status &&& Status.drq ≠ 0 ↔ d.BlockOpen := by
  unfold BlockOpen
  cases h with
  | resting h₁ h₂ h₃ h₄ =>
    have hclear : d.status &&& Status.drq = 0 := by
      rw [show Status.drq = (Status.bsy ||| Status.drq) &&& Status.drq from rfl,
        ← UInt8.and_assoc, h₄, UInt8.zero_and]
    simp [hclear, h₁]
  | scheduled h₁ h₂ h₃ h₄ =>
    rw [h₄, h₁]
    decide
  | armed h₁ h₂ h₃ h₄ =>
    rw [h₄, h₁]
    decide
  | moving h₁ h₂ h₃ h₄ =>
    rw [h₄]
    exact iff_of_true (by decide) h₁

end AtaDisk

end IzarraVM.Ata
