import IzarraVM.AtaPioWrite
import IzarraVM.AtaDma

/-! The PIO form of a transfer against the DMA form of it. -/
namespace IzarraVM.Ata

def pioReadCommands : List UInt8 := [0x20, 0x21, 0xC4]
def pioWriteCommands : List UInt8 := [0x30, 0x31, 0xC5]
def dmaReadCommands : List UInt8 := [0xC8, 0xC9]
def dmaWriteCommands : List UInt8 := [0xCA, 0xCB]

namespace AtaDisk

variable (t : TaskFile)

variable {command : UInt8}

theorem request_pioRead (h : command ∈ pioReadCommands) :
    request t command = .readSectors := by
  simp only [pioReadCommands, List.mem_cons, List.not_mem_nil, or_false] at h
  rcases h with rfl | rfl | rfl <;> rfl

theorem request_pioWrite (h : command ∈ pioWriteCommands) :
    request t command = .writeSectors := by
  simp only [pioWriteCommands, List.mem_cons, List.not_mem_nil, or_false] at h
  rcases h with rfl | rfl | rfl <;> rfl

theorem request_dmaRead (h : command ∈ dmaReadCommands) :
    request t command = .dma .deviceToMemory := by
  simp only [dmaReadCommands, List.mem_cons, List.not_mem_nil, or_false] at h
  rcases h with rfl | rfl <;> rfl

theorem request_dmaWrite (h : command ∈ dmaWriteCommands) :
    request t command = .dma .memoryToDevice := by
  simp only [dmaWriteCommands, List.mem_cons, List.not_mem_nil, or_false] at h
  rcases h with rfl | rfl <;> rfl

def pio (d : AtaDisk) (command : UInt8) (prefixTicks : ℕ) (steps : List HostStep) :
    AtaDisk × Log :=
  (d.step (.writePort (primaryCmdBase + 7) command prefixTicks)).watched steps

def AtRest (d : AtaDisk) : Prop := d.bsySet = false ∧ d.drqSet = false

instance (d : AtaDisk) : Decidable d.AtRest := inferInstanceAs (Decidable (_ ∧ _))

structure InBlocks (count moved : ℕ) (d : AtaDisk) (blocks : List ℕ) : Prop where
  sizes : ∃ k, k ≤ count ∧ blocks = List.replicate k 512
  within : d.drqSet = true → 512 * (blocks.length - 1) ≤ moved ∧ moved < 512 * blocks.length
  between : d.drqSet = false → moved = 512 * blocks.length

structure PioReadLaw (d₀ : AtaDisk) (start count : ℕ) (s : AtaDisk × Log) : Prop where
  order : s.2.taken <+: rangeBytes d₀.medium.image start count
  blocks : InBlocks count s.2.taken.length s.1 s.2.blocks
  image : s.1.medium.image = d₀.medium.image
  finished : s.1.AtRest → s.2.taken = rangeBytes d₀.medium.image start count ∧
    s.1.task = d₀.task.passed start count
  progress : ∃ more, (Runs.exec watch more s).1.AtRest

structure PioWriteLaw (d₀ : AtaDisk) (start count : ℕ) (s : AtaDisk × Log) : Prop where
  bounded : s.2.given.length ≤ 512 * count
  blocks : InBlocks count s.2.given.length s.1 s.2.blocks
  image : ∃ n, n ≤ count ∧ 512 * n ≤ s.2.given.length ∧
    s.1.medium.image = stored d₀.medium.image start s.2.given n
  finished : s.1.AtRest → s.2.given.length = 512 * count ∧
    s.1.medium.image = stored d₀.medium.image start s.2.given count ∧
    s.1.task = d₀.task.passed start count
  progress : ∀ rest, s.2.given.length + rest.length = 512 * count →
    ∃ more, (Runs.exec watch more s).1.AtRest ∧
      (Runs.exec watch more s).2.given = s.2.given ++ rest

section Statuses

variable {d : AtaDisk} {count moved k : ℕ} {blocks : List ℕ}

theorem not_atRest_of_bsy (h : d.status = Status.bsy) : ¬ d.AtRest := by
  rintro ⟨hbsy, -⟩
  rw [bsySet, h] at hbsy
  exact absurd hbsy (by decide)

theorem not_atRest_of_drq (h : d.drqSet = true) : ¬ d.AtRest := by
  rintro ⟨-, hdrq⟩
  rw [h] at hdrq
  cases hdrq

theorem InBlocks.of_closed (hdrq : d.drqSet = false) (hk : k ≤ count)
    (hblocks : blocks = List.replicate k 512) (hmoved : moved = 512 * k) :
    InBlocks count moved d blocks := by
  refine ⟨⟨k, hk, hblocks⟩, ?_, ?_⟩
  · intro hopen
    rw [hdrq] at hopen
    cases hopen
  · intro _
    rw [hblocks, List.length_replicate, hmoved]

theorem InBlocks.of_open (hdrq : d.drqSet = true) (hk : k < count)
    (hblocks : blocks = List.replicate (k + 1) 512) (hle : 512 * k ≤ moved)
    (hlt : moved < 512 * (k + 1)) : InBlocks count moved d blocks := by
  refine ⟨⟨k + 1, hk, hblocks⟩, ?_, ?_⟩
  · intro _
    rw [hblocks, List.length_replicate]
    exact ⟨hle, hlt⟩
  · intro hclosed
    rw [hdrq] at hclosed
    cases hclosed

end Statuses

theorem Served.atRest {d₀ d : AtaDisk} {start count : ℕ} {image : List Sector}
    (h : Served d₀ start count image d) : d.AtRest := by
  refine ⟨?_, drqSet_of_done h.status⟩
  rw [bsySet, h.status]
  decide

section

variable {d : AtaDisk} (hstage : d.Stage) (hrest : d.AtRest) (hmaster : d.task.masterSelected)

include hstage hrest hmaster

theorem ready_of_atRest : d.Ready := by
  have hbsy : ¬ d.CommandPending := by
    rw [← hstage.bsy_iff]
    exact of_decide_eq_false hrest.1
  have hdrq : ¬ d.BlockOpen := by
    rw [← hstage.drq_iff]
    exact of_decide_eq_false hrest.2
  refine ⟨hstage, not_not.mp hdrq, ?_, ?_, hmaster⟩
  · exact Option.not_isSome_iff_eq_none.mp fun h => hbsy (.inl h)
  · exact Option.not_isSome_iff_eq_none.mp fun h => hbsy (.inr h)

end

section

variable {d : AtaDisk} {start count : ℕ} (hready : d.Ready) (hasks : d.Asks start count)

include hready hasks

theorem pio_reading {command : UInt8} (hcommand : command ∈ pioReadCommands) (prefixTicks : ℕ)
    (steps : List HostStep) :
    Reading d start count (d.pio command prefixTicks steps).1
      (d.pio command prefixTicks steps).2 := by
  apply Reading.run hasks steps
  rw [writePortAt_command hready, request_pioRead _ hcommand]
  have hbegin := beginPio_eq hasks .prepareRead prefixTicks
  have hthrough := beginPio_through hasks hready.dma .prepareRead prefixTicks
  refine .waiting 0 ⟨hasks.count_pos, hthrough, ?_, ?_, ?_, ?_⟩ (rangeBytes_zero _ _).symm rfl
  · exact congrArg (·.medium.image) hbegin
  · exact congrArg phase hbegin
  · exact congrArg status hbegin
  · exact ⟨_, congrArg pendingCommand hbegin⟩

theorem pio_writing {command : UInt8} (hcommand : command ∈ pioWriteCommands) (prefixTicks : ℕ)
    (steps : List HostStep) :
    Writing d start count (d.pio command prefixTicks steps).1
      (d.pio command prefixTicks steps).2 := by
  apply Writing.run hasks steps
  rw [writePortAt_command hready, request_pioWrite _ hcommand]
  have hbegin := beginPio_eq hasks .prepareWrite prefixTicks
  have hthrough := beginPio_through hasks hready.dma .prepareWrite prefixTicks
  refine .preparing ⟨hthrough, ?_, ?_, ?_, ?_⟩ rfl rfl
  · exact congrArg (·.medium.image) hbegin
  · exact congrArg phase hbegin
  · exact congrArg status hbegin
  · exact ⟨_, congrArg pendingCommand hbegin⟩

end

section Laws

variable {d₀ : AtaDisk} {start count : ℕ} (hasks : d₀.Asks start count) {s : AtaDisk × Log}

/-- The bytes taken are the first bytes of the range. -/
theorem Reading.order (h : Reading d₀ start count s.1 s.2) :
    s.2.taken <+: rangeBytes d₀.medium.image start count := by
  cases h with
  | waiting n state taken blocks =>
    rw [taken]
    exact rangeBytes_isPrefix state.more.le
  | serving n pos sector state taken blocks =>
    rw [taken]
    refine List.IsPrefix.trans ?_ (rangeBytes_isPrefix state.more)
    rw [rangeBytes_succ state.holds]
    exact (List.prefix_append_right_inj _).mpr (List.take_prefix _ _)
  | done state taken blocks => exact taken ▸ List.prefix_rfl

theorem Reading.ended (h : Reading d₀ start count s.1 s.2) (hrest : s.1.AtRest) :
    Served d₀ start count d₀.medium.image s.1 ∧
      s.2.taken = rangeBytes d₀.medium.image start count := by
  cases h with
  | waiting n state taken blocks => exact absurd hrest (not_atRest_of_bsy state.status)
  | serving n pos sector state taken blocks =>
    exact absurd hrest (not_atRest_of_drq (drqSet_of_open state.status))
  | done state taken blocks => exact ⟨state, taken⟩

theorem Writing.ended (h : Writing d₀ start count s.1 s.2) (hrest : s.1.AtRest) :
    Served d₀ start count (stored d₀.medium.image start s.2.given count) s.1 ∧
      s.2.given.length = 512 * count := by
  cases h with
  | preparing state given blocks => exact absurd hrest (not_atRest_of_bsy state.status)
  | filling n state blocks =>
    exact absurd hrest (not_atRest_of_drq (drqSet_of_open state.status))
  | committing n state blocks => exact absurd hrest (not_atRest_of_bsy state.status)
  | done state given blocks => exact ⟨state, given⟩

include hasks

theorem Reading.law (h : Reading d₀ start count s.1 s.2) : PioReadLaw d₀ start count s := by
  have horder := h.order
  have hprogress : ∃ more, (Runs.exec watch more s).1.AtRest := by
    have hle := horder.length_le
    rw [length_rangeBytes count hasks.le_image] at hle
    obtain ⟨more, hdone⟩ := h.finishes hasks (512 * count - s.2.taken.length) (by omega)
    exact ⟨more, hdone.atRest⟩
  have hfinished : s.1.AtRest → s.2.taken = rangeBytes d₀.medium.image start count ∧
      s.1.task = d₀.task.passed start count := by
    intro hrest
    obtain ⟨hserved, htaken⟩ := h.ended hrest
    exact ⟨htaken, hserved.through.task⟩
  cases h with
  | waiting n state taken blocks =>
    have hlen : s.2.taken.length = 512 * n := by
      have hle := hasks.le_image
      have hmore := state.more
      rw [taken, length_rangeBytes n (by omega)]
    exact ⟨horder, .of_closed (drqSet_of_bsy state.status) state.more.le blocks hlen, state.image,
      hfinished, hprogress⟩
  | serving n pos sector state taken blocks =>
    have hwithin := state.within
    have hlen : s.2.taken.length = 512 * n + pos := by
      have hle := hasks.le_image
      have hmore := state.more
      rw [taken, List.length_append, length_rangeBytes n (by omega), List.length_take, sector.full]
      omega
    exact ⟨horder, .of_open (drqSet_of_open state.status) state.more blocks (by omega) (by omega),
      state.image, hfinished, hprogress⟩
  | done state taken blocks =>
    have hlen : s.2.taken.length = 512 * count := by
      rw [taken, length_rangeBytes count hasks.le_image]
    exact ⟨horder, .of_closed (drqSet_of_done state.status) le_rfl blocks hlen, state.image,
      hfinished, hprogress⟩

theorem Writing.law (h : Writing d₀ start count s.1 s.2) : PioWriteLaw d₀ start count s := by
  have hprogress : ∀ rest, s.2.given.length + rest.length = 512 * count →
      ∃ more, (Runs.exec watch more s).1.AtRest ∧
        (Runs.exec watch more s).2.given = s.2.given ++ rest := by
    intro rest hall
    obtain ⟨more, hdone, hgiven⟩ := h.finishes hasks rest hall
    exact ⟨more, hdone.atRest, hgiven⟩
  have hfinished : s.1.AtRest → s.2.given.length = 512 * count ∧
      s.1.medium.image = stored d₀.medium.image start s.2.given count ∧
      s.1.task = d₀.task.passed start count := by
    intro hrest
    obtain ⟨hserved, hlen⟩ := h.ended hrest
    exact ⟨hlen, hserved.image, hserved.through.task⟩
  cases h with
  | preparing state given blocks =>
    have hpos := hasks.count_pos
    have hlen : s.2.given.length = 512 * 0 := congrArg List.length given
    exact ⟨by omega, .of_closed (drqSet_of_bsy state.status) hpos.le blocks hlen,
      ⟨0, hpos.le, Nat.zero_le _, state.image⟩, hfinished, hprogress⟩
  | filling n state blocks =>
    have hmore := state.more
    have henough := state.enough
    have hwithin := state.within
    rw [List.length_drop] at hwithin
    exact ⟨by omega, .of_open (drqSet_of_open state.status) hmore blocks henough (by omega),
      ⟨n, hmore.le, henough, state.image⟩, hfinished, hprogress⟩
  | committing n state blocks =>
    have hmore := state.more
    have hfull := state.full
    exact ⟨by omega, .of_closed (drqSet_of_bsy state.status) hmore blocks hfull,
      ⟨n, hmore.le, by omega, state.image⟩, hfinished, hprogress⟩
  | done state given blocks =>
    exact ⟨given.le, .of_closed (drqSet_of_done state.status) le_rfl blocks given,
      ⟨count, le_rfl, given.ge, state.image⟩, hfinished, hprogress⟩

end Laws

/-- In every state the disk can reach, BSY says that a command is pending and DRQ that a data
block is open. A PIO command that it takes there moves the sectors it asks for, in order and a
block each, under any schedule; and while a DMA transfer mode is selected, the DMA form of the
command moves the same bytes and leaves the same sectors and the same registers. -/
theorem pio_agrees_with_dma (image : List UInt8) (sectorCacheEnabled : Bool)
    (history : List Event) :
    let d := Runs.exec step history (new image sectorCacheEnabled)
    (d.bsySet = true ↔ d.CommandPending) ∧ (d.drqSet = true ↔ d.BlockOpen) ∧
    ∀ start count, d.AtRest → d.task.masterSelected → d.Asks start count →
      (∀ command ∈ pioReadCommands, ∀ prefixTicks steps,
        PioReadLaw d start count (d.pio command prefixTicks steps)) ∧
      (∀ command ∈ pioWriteCommands, ∀ prefixTicks steps,
        PioWriteLaw d start count (d.pio command prefixTicks steps)) ∧
      (d.dmaMode.bytesPerSecond.isSome →
        (∀ command ∈ pioReadCommands, ∀ prefixTicks steps,
          (d.pio command prefixTicks steps).1.AtRest →
          ∀ dmaCommand ∈ dmaReadCommands, ∀ dmaPrefix before after,
            let pio := d.pio command prefixTicks steps
            let dma := d.dmaRead dmaCommand dmaPrefix before after
            dma.1 = some pio.2.taken ∧ pio.1.medium.image = dma.2.medium.image ∧
              pio.1.task = dma.2.task) ∧
        (∀ command ∈ pioWriteCommands, ∀ prefixTicks steps,
          (d.pio command prefixTicks steps).1.AtRest →
          ∀ dmaCommand ∈ dmaWriteCommands, ∀ dmaPrefix polls,
            let pio := d.pio command prefixTicks steps
            let dma := d.dmaWrite dmaCommand dmaPrefix polls pio.2.given
            pio.1.medium.image = dma.medium.image ∧ pio.1.task = dma.task)) := by
  intro d
  have hstage : d.Stage := run_stage (new_stage image sectorCacheEnabled) history
  have hbsy : d.bsySet = true ↔ d.CommandPending := by
    rw [bsySet, decide_eq_true_iff]
    exact hstage.bsy_iff
  have hdrq : d.drqSet = true ↔ d.BlockOpen := by
    rw [drqSet, decide_eq_true_iff]
    exact hstage.drq_iff
  refine ⟨hbsy, hdrq, ?_⟩
  intro start count hrest hmaster hasks
  have hready := ready_of_atRest hstage hrest hmaster
  refine ⟨fun _ hcommand prefixTicks steps => ?_, fun _ hcommand prefixTicks steps => ?_, ?_⟩
  · exact (pio_reading hready hasks hcommand prefixTicks steps).law hasks
  · exact (pio_writing hready hasks hcommand prefixTicks steps).law hasks
  intro hmode
  obtain ⟨rate, hrate⟩ := Option.isSome_iff_exists.mp hmode
  constructor
  · intro command hcommand prefixTicks steps hend dmaCommand hdma dmaPrefix before after
    have hlaw := (pio_reading hready hasks hcommand prefixTicks steps).law hasks
    obtain ⟨hpayload, hleft⟩ := dmaRead_eq hready hasks hrate (request_dmaRead _ hdma) dmaPrefix
      before after
    obtain ⟨htaken, htask⟩ := hlaw.finished hend
    exact ⟨htaken ▸ hpayload, hlaw.image.trans hleft.image.symm, htask.trans hleft.task.symm⟩
  · intro command hcommand prefixTicks steps hend dmaCommand hdma dmaPrefix polls
    have hlaw := (pio_writing hready hasks hcommand prefixTicks steps).law hasks
    obtain ⟨hlength, hstored, htask⟩ := hlaw.finished hend
    have hleft := dmaWrite_eq hready hasks hrate (request_dmaWrite _ hdma) dmaPrefix polls hlength
    exact ⟨hstored.trans hleft.image.symm, htask.trans hleft.task.symm⟩

def oneSector : List UInt8 := List.replicate 512 0x5A

def addressFirst : List Event :=
  [.writePort 0x1F2 1 0, .writePort 0x1F6 0x40 0, .writePort 0x1F3 0 0]

def selectPioMode : List Event :=
  [.writePort 0x1F1 0x03 0, .writePort 0x1F2 0x00 0, .writePort 0x1F7 0xEF 0, .advance 1]

def drainOne : List HostStep := .advance 1 :: List.replicate 512 (.read 0x1F0 0)

theorem oneSector_agrees :
    let d := Runs.exec step addressFirst (new oneSector true)
    (d.pio 0x20 0 drainOne).2.taken = oneSector ∧
      (d.pio 0x20 0 drainOne).1.task = (d.dmaRead 0xC8 0 [] []).2.task := by
  have hrest : (Runs.exec step addressFirst (new oneSector true)).AtRest := by decide +kernel
  have hmaster : (Runs.exec step addressFirst (new oneSector true)).task.masterSelected := by
    decide +kernel
  have hasks : (Runs.exec step addressFirst (new oneSector true)).Asks 0 1 :=
    ⟨by decide +kernel, by decide +kernel⟩
  obtain ⟨hreads, -, hdma⟩ :=
    (pio_agrees_with_dma oneSector true addressFirst).2.2 0 1 hrest hmaster hasks
  have hend : ((Runs.exec step addressFirst (new oneSector true)).pio 0x20 0 drainOne).1.AtRest := by
    decide +kernel
  have hrange : rangeBytes (Runs.exec step addressFirst (new oneSector true)).medium.image 0 1 =
      oneSector := by decide +kernel
  refine ⟨?_, ?_⟩
  · rw [((hreads 0x20 (by decide) 0 drainOne).finished hend).1, hrange]
  · exact ((hdma (by decide +kernel)).1 0x20 (by decide) 0 drainOne hend 0xC8 (by decide) 0 []
      []).2.2

/-- With a PIO transfer mode selected the DMA form aborts: it leaves the registers as they were,
where the PIO form passes its sector. -/
theorem pioMode_disagrees :
    let d := Runs.exec step (selectPioMode ++ addressFirst) (new oneSector true)
    d.AtRest ∧ d.task.masterSelected = true ∧ d.commandLba = some (0, 1) ∧ d.totalSectors = 1 ∧
      (d.pio 0x20 0 drainOne).1.AtRest ∧ (d.pio 0x20 0 drainOne).1.task ≠
        (d.dmaRead 0xC8 0 [] []).2.task ∧
      (d.dmaRead 0xC8 0 [] []).1 = none := by
  decide +kernel

end AtaDisk

end IzarraVM.Ata
