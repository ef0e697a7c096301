import IzarraVM.AtaHost

/-! READ and WRITE DMA: the bus-master engine moves every sector of the request in one call. -/
namespace IzarraVM.Ata.AtaDisk

structure Armed (d₀ : AtaDisk) (request : DmaRequest) (d : AtaDisk) : Prop where
  request : d.dmaRequest = some request
  pending : d.pendingCommand = none
  phase : d.phase = .idle
  image : d.medium.image = d₀.medium.image
  task : d.task = d₀.task
  sectors : d.logicalSectors = d₀.logicalSectors
  heads : d.logicalHeads = d₀.logicalHeads

variable {d₀ d : AtaDisk}

/-- The request waits, whatever the host polls and however long. -/
theorem Armed.run {request : DmaRequest} (h : Armed d₀ request d)
    (polls : List HostStep) :
    Armed d₀ request (Runs.exec step (polls.map HostStep.event) d) := by
  induction polls generalizing d with
  | nil => exact h
  | cons host rest ih =>
    obtain ⟨irq, heq⟩ := step_quiet host (.inl h.pending) (.inl (by rw [h.phase]; decide))
      (.inl (by rw [h.phase]; decide))
    rw [List.map_cons, Runs.exec_cons, heq]
    apply ih
    exact { h with }

/-- A DMA command that is taken arms its request. -/
theorem armed {d : AtaDisk} {start count rate : ℕ} (hready : d.Ready) (hasks : d.Asks start count)
    (hrate : d.dmaMode.bytesPerSecond = some rate) {command : UInt8} {direction : DmaDirection}
    (hcommand : request d.task command = .dma direction) (prefixTicks : ℕ) :
    Armed d ⟨direction, start, count, rate⟩
      (d.step (.writePort (primaryCmdBase + 7) command prefixTicks)) := by
  have hlt := hasks.lt
  have hrange := hasks.inRange
  rw [writePortAt_command hready, hcommand]
  show Armed d _ (d.beginDma direction)
  unfold beginDma
  rw [hrate, hasks.decodes]
  show Armed d _ (if _ then _ else _)
  rw [saturatingAdd32_eq (by omega), if_neg (by omega)]
  exact ⟨rfl, hready.pending, rfl, rfl, rfl, rfl, rfl⟩

/-- The payload is the bytes of the range, and reading it changes no sector. -/
theorem readRange_eq (n : ℕ) : ∀ (d : AtaDisk) (lba : ℕ), lba + n ≤ d.medium.image.length →
    ∃ m : Medium, m.image = d.medium.image ∧
      d.readRange lba n = (some (rangeBytes d.medium.image lba n), { d with medium := m }) := by
  induction n with
  | zero =>
    intro d lba hle
    refine ⟨d.medium, rfl, ?_⟩
    rw [rangeBytes_zero]
    rfl
  | succ n ih =>
    intro d lba hle
    obtain ⟨sector, hget⟩ : ∃ sector, d.medium.image[lba]? = some sector :=
      ⟨_, List.getElem?_eq_getElem (by omega)⟩
    have hsame := Medium.readLba_image d.medium lba
    have hread : d.readLba lba = (some sector, { d with medium := (d.medium.readLba lba).2 }) :=
      Prod.ext ((Medium.readLba_fst ..).trans hget) rfl
    obtain ⟨m, hm, hrest⟩ := ih { d with medium := (d.medium.readLba lba).2 } (lba + 1)
      (by rw [hsame]; omega)
    refine ⟨m, hm.trans hsame, ?_⟩
    unfold readRange
    rw [hread]
    simp only [hrest, hsame, rangeBytes_cons hget, Option.map_some]

/-- The engine's data is stored sector by sector. -/
theorem writeRange_eq (n : ℕ) : ∀ (d : AtaDisk) (lba : ℕ) {data : List UInt8},
    lba + n ≤ d.medium.image.length → data.length = 512 * n →
    ∃ (m : Medium) (dirty : Bool), m.image = stored d.medium.image lba data n ∧
      d.writeRange lba data n = (true, { d with medium := m, dirty := dirty }) := by
  induction n with
  | zero => exact fun d _ _ _ _ => ⟨d.medium, d.dirty, rfl, rfl⟩
  | succ n ih =>
    intro d lba data hle hlen
    have hlba : lba < d.medium.image.length := by omega
    have hfirst : 512 ≤ (data.take 512).length := by
      rw [List.length_take]
      omega
    obtain ⟨m, hwrite⟩ := Medium.writeLba_isSome hlba hfirst
    have hsector : Sector.ofBytes (data.take 512) = Sector.ofBytes data := by
      have hsplit := ofBytes_append (b := data.drop 512) hfirst
      rw [List.take_append_drop] at hsplit
      exact hsplit.symm
    have himage := Medium.writeLba_eq_some hwrite
    rw [hsector] at himage
    have hothers : (data.drop 512).length = 512 * n := by
      rw [List.length_drop]
      omega
    obtain ⟨m', dirty, hm', hrest⟩ := ih { d with medium := m, dirty := true } (lba + 1)
      (by rw [himage, List.length_set]; omega) hothers
    refine ⟨m', dirty, ?_, ?_⟩
    · rw [hm', stored_cons]
      show stored m.image _ _ _ = _
      rw [himage]
    · have hstep : d.writeLba lba (data.take 512) = some { d with medium := m, dirty := true } := by
        unfold writeLba
        rw [hwrite]
        rfl
      unfold writeRange
      rw [hstep]
      exact hrest

/-- The registers a DMA command leaves are those of a transfer that passed every sector. -/
theorem advanceDmaTaskFile_task (d : AtaDisk) {request : DmaRequest}
    (hpos : 0 < request.sectors) (hlt : request.lba + request.sectors < 2 ^ 28) :
    (d.advanceDmaTaskFile request).task = d.task.passed request.lba request.sectors := by
  show TaskFile.setAddress _ _ = _
  rw [saturatingAdd32_eq (by omega), TaskFile.passed, if_neg hpos.ne']

def dmaRead (d : AtaDisk) (command : UInt8) (prefixTicks : ℕ) (before after : List HostStep) :
    Option (List UInt8) × AtaDisk :=
  let armed := d.step (.writePort (primaryCmdBase + 7) command prefixTicks)
  let read := (Runs.exec step (before.map HostStep.event) armed).readDmaPayload
  (read.1, (Runs.exec step (after.map HostStep.event) read.2).completeDmaRead
    (read.1.getD []).length)

def dmaWrite (d : AtaDisk) (command : UInt8) (prefixTicks : ℕ) (polls : List HostStep)
    (data : List UInt8) : AtaDisk :=
  let armed := d.step (.writePort (primaryCmdBase + 7) command prefixTicks)
  (Runs.exec step (polls.map HostStep.event) armed).completeDmaWrite data |>.2

/-- The engine reads the payload of an armed request. -/
theorem Armed.payload {request : DmaRequest} (h : Armed d₀ request d)
    (hdirection : request.direction = .deviceToMemory)
    (hrange : request.lba + request.sectors ≤ d₀.medium.image.length) :
    d.readDmaPayload.1 = some (rangeBytes d₀.medium.image request.lba request.sectors) ∧
      Armed d₀ request d.readDmaPayload.2 := by
  obtain ⟨m, hm, hread⟩ := readRange_eq request.sectors d request.lba
    (by rw [h.image]; exact hrange)
  have hpayload : d.readDmaPayload = d.readRange request.lba request.sectors := by
    unfold readDmaPayload
    rw [h.request]
    exact if_neg (not_not.mpr hdirection)
  rw [hpayload, hread, h.image]
  exact ⟨rfl, h.request, h.pending, h.phase, hm.trans h.image, h.task, h.sectors, h.heads⟩

structure Transferred (d₀ : AtaDisk) (start count : ℕ) (image : List Sector) (d : AtaDisk) :
    Prop where
  image : d.medium.image = image
  task : d.task = d₀.task.passed start count
  sectors : d.logicalSectors = d₀.logicalSectors
  heads : d.logicalHeads = d₀.logicalHeads

theorem Armed.completeRead {start count rate : ℕ}
    (h : Armed d₀ ⟨.deviceToMemory, start, count, rate⟩ d) (hpos : 0 < count)
    (hlt : start + count < 2 ^ 28) :
    Transferred d₀ start count d₀.medium.image (d.completeDmaRead (count * 512)) := by
  unfold completeDmaRead
  rw [h.request]
  simp only [DmaRequest.byteLen, ne_eq, not_true_eq_false, or_self, if_false]
  refine ⟨h.image, ?_, h.sectors, h.heads⟩
  rw [← h.task]
  exact advanceDmaTaskFile_task _ hpos hlt

theorem Armed.completeWrite {start count rate : ℕ} {data : List UInt8}
    (h : Armed d₀ ⟨.memoryToDevice, start, count, rate⟩ d) (hpos : 0 < count)
    (hlt : start + count < 2 ^ 28) (hrange : start + count ≤ d₀.medium.image.length)
    (hdata : data.length = 512 * count) :
    Transferred d₀ start count (stored d₀.medium.image start data count)
      (d.completeDmaWrite data).2 := by
  obtain ⟨m, dirty, hm, hwrite⟩ := writeRange_eq count d start
    (by rw [h.image]; exact hrange) hdata
  have hlen : data.length = count * 512 := by rw [hdata, Nat.mul_comm]
  unfold completeDmaWrite
  rw [h.request]
  simp only [DmaRequest.byteLen, ne_eq, hlen, not_true_eq_false, or_self, if_false, hwrite]
  refine ⟨?_, ?_, h.sectors, h.heads⟩
  · rw [← h.image]
    exact hm
  · rw [← h.task]
    exact advanceDmaTaskFile_task _ hpos hlt

section

variable {d : AtaDisk} {start count rate : ℕ} (hready : d.Ready) (hasks : d.Asks start count)
  (hrate : d.dmaMode.bytesPerSecond = some rate)

include hready hasks hrate

theorem dmaRead_eq {command : UInt8} (hcommand : request d.task command = .dma .deviceToMemory)
    (prefixTicks : ℕ) (before after : List HostStep) :
    (d.dmaRead command prefixTicks before after).1 =
        some (rangeBytes d.medium.image start count) ∧
      Transferred d start count d.medium.image (d.dmaRead command prefixTicks before after).2 := by
  have harmed := (armed hready hasks hrate hcommand prefixTicks).run before
  obtain ⟨hpayload, harmed⟩ := harmed.payload rfl hasks.le_image
  refine ⟨hpayload, ?_⟩
  have hbytes : (rangeBytes d.medium.image start count).length = count * 512 := by
    rw [length_rangeBytes count hasks.le_image, Nat.mul_comm]
  simp only [dmaRead, hpayload, Option.getD_some, hbytes]
  exact (harmed.run after).completeRead hasks.count_pos hasks.lt

theorem dmaWrite_eq {command : UInt8} (hcommand : request d.task command = .dma .memoryToDevice)
    (prefixTicks : ℕ) (polls : List HostStep) {data : List UInt8}
    (hdata : data.length = 512 * count) :
    Transferred d start count (stored d.medium.image start data count)
      (d.dmaWrite command prefixTicks polls data) := by
  have harmed := (armed hready hasks hrate hcommand prefixTicks).run polls
  exact harmed.completeWrite hasks.count_pos hasks.lt hasks.le_image hdata

end

end IzarraVM.Ata.AtaDisk
