import IzarraVM.AtaHost

/-! READ SECTORS by programmed I/O: the host takes the sectors in order, a block each. -/
namespace IzarraVM.Ata.AtaDisk

variable {d : AtaDisk}

theorem drqSet_of_bsy (h : d.status = Status.bsy) : d.drqSet = false := by
  rw [drqSet, h]
  decide

theorem drqSet_of_done (h : d.status = Status.drdy ||| Status.dsc) :
    d.drqSet = false := by
  rw [drqSet, h]
  decide

theorem drqSet_of_open (h : d.status = Status.drdy ||| Status.drq ||| Status.dsc) :
    d.drqSet = true := by
  rw [drqSet, h]
  decide

theorem taken_of_not_drq (hdrq : d.drqSet = false) (h : HostStep) :
    d.taken h = [] := by
  cases h with
  | read port prefixTicks => exact if_neg fun hr => by simp [hdrq] at hr
  | _ => rfl

theorem taken_of_quiet {h : HostStep} (hno : ∀ p, h ≠ .read primaryCmdBase p) :
    d.taken h = [] := by
  cases h with
  | read port prefixTicks =>
    apply if_neg
    rintro ⟨rfl, -⟩
    exact hno prefixTicks rfl
  | _ => rfl

section Watch

variable (log : Log) {host : HostStep}

theorem watch_taken (hdrq : d.drqSet = false) (host : HostStep) :
    (watch (d, log) host).2.taken = log.taken := by
  show log.taken ++ d.taken host = _
  rw [taken_of_not_drq hdrq, List.append_nil]

theorem watch_blocks (h : d.opened (d.step host.event) = []) :
    (watch (d, log) host).2.blocks = log.blocks := by
  show log.blocks ++ d.opened _ = _
  rw [h, List.append_nil]

theorem watch_closed (hnext : (d.step host.event).drqSet = false) :
    (watch (d, log) host).2.blocks = log.blocks :=
  watch_blocks log (if_neg fun h => by simp [hnext] at h)

theorem watch_open (hdrq : d.drqSet = true) (host : HostStep) :
    (watch (d, log) host).2.blocks = log.blocks := watch_blocks log (if_neg fun h => h.2 hdrq)

/-- A block that opens is announced with its size. -/
theorem watch_rising (hdrq : d.drqSet = false) (hnext : (d.step host.event).drqSet = true) :
    (watch (d, log) host).2.blocks = log.blocks ++ [(d.step host.event).buffer.length] :=
  congrArg (log.blocks ++ ·) (if_pos ⟨hnext, by simp [hdrq]⟩)

end Watch

structure Waiting (d₀ : AtaDisk) (start count n : ℕ) (d : AtaDisk) : Prop where
  more : n < count
  through : Through d₀ start count n d
  image : d.medium.image = d₀.medium.image
  phase : d.phase = .idle
  status : d.status = Status.bsy
  pending : ∃ t, d.pendingCommand = some ⟨t, .prepareRead⟩

structure Serving (d₀ : AtaDisk) (start count n pos : ℕ) (sector : Sector) (d : AtaDisk) :
    Prop where
  more : n < count
  within : pos < 512
  holds : d₀.medium.image[start + n]? = some sector
  through : Through d₀ start count n d
  image : d.medium.image = d₀.medium.image
  phase : d.phase = .dataIn
  status : d.status = Status.drdy ||| Status.drq ||| Status.dsc
  pending : d.pendingCommand = none
  buffer : d.buffer = sector.bytes
  bufferPos : d.bufferPos = pos

structure Served (d₀ : AtaDisk) (start count : ℕ) (image : List Sector) (d : AtaDisk) : Prop where
  through : Through d₀ start count count d
  image : d.medium.image = image
  phase : d.phase = .idle
  status : d.status = Status.drdy ||| Status.dsc
  pending : d.pendingCommand = none

section

variable {d₀ d : AtaDisk} {start count n : ℕ}

theorem prepareReadSector_eq {sector : Sector} (h : d.medium.image[d.pioLba]? = some sector) :
    ∃ m : Medium, m.image = d.medium.image ∧ d.prepareReadSector =
      raiseIrq ({ d with medium := m, lastAccessBytes := d.lastAccessBytes + 512 }.openBlock
        .dataIn sector.bytes) := by
  refine ⟨(d.medium.readLba d.pioLba).2, Medium.readLba_image .., ?_⟩
  have hread : d.readLba d.pioLba =
      (some sector, { d with medium := (d.medium.readLba d.pioLba).2 }) :=
    Prod.ext ((Medium.readLba_fst ..).trans h) rfl
  unfold prepareReadSector
  rw [hread]

/-- The last byte of a block ends the sector: the next is scheduled, or the command is done. -/
theorem blockDrained_eq (h : Through d₀ start count n d) (prefixTicks : ℕ) :
    d.blockDrained prefixTicks =
      if n < count then d.scheduleAt .prepareRead commandLatencyTicks prefixTicks
      else { d with status := Status.drdy ||| Status.dsc } := by
  unfold blockDrained
  rw [h.left]
  by_cases hn : n < count
  · rw [if_pos hn, if_pos (by omega)]
  · rw [if_neg hn, if_neg (by omega)]

theorem readDataByte_within {sector : Sector} {pos : ℕ} (hphase : d.phase = .dataIn)
    (hbuffer : d.buffer = sector.bytes) (hpos : d.bufferPos = pos) (hlt : pos < 512)
    (prefixTicks : ℕ) :
    sector.bytes.take pos ++ [(d.readDataByte prefixTicks).1] = sector.bytes.take (pos + 1) := by
  have hlen : pos < sector.bytes.length := by rw [sector.full]; exact hlt
  unfold readDataByte
  rw [if_neg (not_not.mpr hphase), hbuffer, hpos]
  show sector.bytes.take pos ++ [sector.bytes.getD pos 0] = _
  rw [List.take_add_one, List.getD_eq_getElem?_getD, List.getElem?_eq_getElem hlen]
  rfl

end

variable {d₀ d : AtaDisk}

variable {start count n : ℕ}

/-- A sector that falls due is read, and its block opens. -/
theorem Waiting.opens (hasks : d₀.Asks start count)
    (h : Waiting d₀ start count n d) :
    ∃ sector, Serving d₀ start count n 0 sector
      ({ d with pendingCommand := none }.finishPending .prepareRead) := by
  have hlt := hasks.le_image
  have hmore := h.more
  obtain ⟨sector, hget⟩ : ∃ sector, d₀.medium.image[start + n]? = some sector :=
    ⟨_, List.getElem?_eq_getElem (by omega)⟩
  have hlook : d.medium.image[d.pioLba]? = some sector := by rw [h.image, h.through.lba, hget]
  obtain ⟨m, hm, hprepare⟩ := prepareReadSector_eq (d := { d with pendingCommand := none }) hlook
  refine ⟨sector, ?_⟩
  rw [show finishPending _ .prepareRead = _ from hprepare]
  exact ⟨hmore, by decide, hget, { h.through with }, hm.trans h.image, rfl, rfl,
    rfl, rfl, rfl⟩

/-- A host that waits for a sector finds it not yet due, or its block open. -/
theorem Waiting.step (hasks : d₀.Asks start count)
    (h : Waiting d₀ start count n d) (host : HostStep) :
    Waiting d₀ start count n (d.step host.event) ∨
      ∃ sector, Serving d₀ start count n 0 sector (d.step host.event) := by
  obtain ⟨t, pending⟩ := h.pending
  rcases step_scheduled pending h.phase host with ⟨irq, t', heq⟩ | heq
  · left
    rw [heq]
    exact ⟨h.more, { h.through with }, h.image, h.phase, h.status, t', rfl⟩
  · right
    rw [heq]
    exact h.opens hasks

/-- The data port moves to the next byte of the block. -/
theorem Serving.next {start count n pos : ℕ} {sector : Sector}
    (h : Serving d₀ start count n pos sector d) (hmore : pos + 1 < 512) (p : ℕ) :
    Serving d₀ start count n (pos + 1) sector (d.readDataByte p).2 := by
  unfold readDataByte
  rw [if_neg (not_not.mpr h.phase), h.bufferPos, h.buffer, sector.full, if_pos hmore]
  exact ⟨h.more, hmore, h.holds, { h.through with }, h.image, h.phase,
    h.status, h.pending, rfl, rfl⟩

/-- The last byte ends the sector: the next one is scheduled, or the command is done. -/
theorem Serving.last {sector : Sector}
    (hasks : d₀.Asks start count) (h : Serving d₀ start count n 511 sector d) (p : ℕ) :
    Waiting d₀ start count (n + 1) (d.readDataByte p).2 ∨
      n + 1 = count ∧ Served d₀ start count d₀.medium.image (d.readDataByte p).2 := by
  have hidle : Through d₀ start count n { d with phase := .idle, buffer := [], bufferPos := 0 } :=
    { h.through with }
  have hcounted := hidle.countSector h.more hasks.lt
  have hmedium := countSector_medium { d with phase := .idle, buffer := [], bufferPos := 0 }
  obtain ⟨hphase, hpending, -⟩ :=
    countSector_stage_fields { d with phase := .idle, buffer := [], bufferPos := 0 }
  unfold readDataByte
  rw [if_neg (not_not.mpr h.phase), h.bufferPos, h.buffer, sector.full, if_neg (by decide)]
  show Waiting d₀ start count (n + 1) (blockDrained _ p) ∨ _ ∧ Served d₀ start count _ (blockDrained _ p)
  rw [blockDrained_eq hcounted]
  have himage := (congrArg Medium.image hmedium).trans h.image
  by_cases hlast : n + 1 < count
  · left
    rw [if_pos hlast]
    exact ⟨hlast, { hcounted with }, himage, rfl, rfl, _, rfl⟩
  · right
    obtain rfl : n + 1 = count := by have := h.more; omega
    rw [if_neg hlast]
    exact ⟨rfl, { hcounted with }, himage, hphase, rfl,
      hpending.trans h.pending⟩

theorem Serving.other {start count n pos : ℕ} {sector : Sector}
    (h : Serving d₀ start count n pos sector d) {host : HostStep}
    (hno : ∀ p, host ≠ .read primaryCmdBase p) :
    Serving d₀ start count n pos sector (d.step host.event) := by
  obtain ⟨irq, heq⟩ := step_quiet host (.inl h.pending) (.inr hno) (.inl (by rw [h.phase]; decide))
  rw [heq]
  exact { h with through := { h.through with } }

theorem Served.step {start count : ℕ} {image : List Sector}
    (h : Served d₀ start count image d) (host : HostStep) :
    Served d₀ start count image (d.step host.event) := by
  obtain ⟨irq, heq⟩ := step_quiet host (.inl h.pending) (.inl (by rw [h.phase]; decide))
    (.inl (by rw [h.phase]; decide))
  rw [heq]
  exact { h with through := { h.through with } }

inductive Reading (d₀ : AtaDisk) (start count : ℕ) (d : AtaDisk) (log : Log) : Prop
  | waiting (n : ℕ) (state : Waiting d₀ start count n d)
      (taken : log.taken = rangeBytes d₀.medium.image start n)
      (blocks : log.blocks = List.replicate n 512)
  | serving (n pos : ℕ) (sector : Sector) (state : Serving d₀ start count n pos sector d)
      (taken : log.taken = rangeBytes d₀.medium.image start n ++ sector.bytes.take pos)
      (blocks : log.blocks = List.replicate (n + 1) 512)
  | done (state : Served d₀ start count d₀.medium.image d)
      (taken : log.taken = rangeBytes d₀.medium.image start count)
      (blocks : log.blocks = List.replicate count 512)

/-- One step of the host keeps the read on its course. -/
theorem Reading.step {start count : ℕ} {log : Log}
    (hasks : d₀.Asks start count) (h : Reading d₀ start count d log) (host : HostStep) :
    Reading d₀ start count (watch (d, log) host).1 (watch (d, log) host).2 := by
  cases h with
  | waiting n state taken blocks =>
    have hdrq := drqSet_of_bsy state.status
    have htaken := (watch_taken log hdrq host).trans taken
    rcases state.step hasks host with hwait | ⟨sector, hserve⟩
    · exact .waiting n hwait htaken ((watch_closed log (drqSet_of_bsy hwait.status)).trans blocks)
    · refine .serving n 0 sector hserve ?_ ?_
      · rw [htaken, List.take_zero, List.append_nil]
      · rw [watch_rising log hdrq (drqSet_of_open hserve.status), hserve.buffer, sector.full, blocks,
          List.replicate_succ']
  | serving n pos sector state taken blocks =>
    have hdrq := drqSet_of_open state.status
    have hblocks := (watch_open log hdrq host).trans blocks
    by_cases hread : ∃ p, host = .read primaryCmdBase p
    · obtain ⟨p, rfl⟩ := hread
      have htaken : log.taken ++ d.taken (.read primaryCmdBase p) =
          rangeBytes d₀.medium.image start n ++ sector.bytes.take (pos + 1) := by
        have hbyte : d.taken (.read primaryCmdBase p) = [(d.readDataByte p).1] := by
          show (if _ then _ else _) = _
          rw [if_pos ⟨rfl, hdrq⟩, readPortAt_data]
          rfl
        rw [hbyte, taken, List.append_assoc,
          readDataByte_within state.phase state.buffer state.bufferPos state.within p]
      by_cases hmore : pos + 1 < 512
      · exact .serving n (pos + 1) sector (state.next hmore p) htaken hblocks
      · obtain rfl : pos = 511 := by have := state.within; omega
        have hwhole : log.taken ++ d.taken (.read primaryCmdBase p) =
            rangeBytes d₀.medium.image start (n + 1) := by
          rw [htaken, rangeBytes_succ state.holds,
            List.take_of_length_le (Nat.le_of_eq sector.full)]
        rcases state.last hasks p with hwait | ⟨rfl, hdone⟩
        · exact .waiting (n + 1) hwait hwhole hblocks
        · exact .done hdone hwhole hblocks
    · have hno : ∀ p, host ≠ .read primaryCmdBase p := fun p hp => hread ⟨p, hp⟩
      refine .serving n pos sector (state.other hno) ?_ hblocks
      show log.taken ++ d.taken host = _
      rw [taken_of_quiet hno, List.append_nil, taken]
  | done state taken blocks =>
    have hnext := state.step host
    refine .done hnext ?_ ?_
    · rw [watch_taken log (drqSet_of_done state.status), taken]
    · rw [watch_closed log (drqSet_of_done hnext.status), blocks]

theorem Reading.run {d₀ : AtaDisk} {start count : ℕ} (hasks : d₀.Asks start count)
    (steps : List HostStep) {s : AtaDisk × Log} (h : Reading d₀ start count s.1 s.2) :
    Reading d₀ start count (Runs.exec watch steps s).1 (Runs.exec watch steps s).2 := by
  induction steps generalizing s with
  | nil => exact h
  | cons host rest ih => exact ih (h.step hasks host)

/-- The deadline of a waiting sector, met in one advance. -/
theorem Waiting.due (hasks : d₀.Asks start count)
    (h : Waiting d₀ start count n d) :
    ∃ ticks sector, Serving d₀ start count n 0 sector (d.step (HostStep.advance ticks).event) := by
  obtain ⟨t, pending⟩ := h.pending
  obtain ⟨sector, hserve⟩ := h.opens hasks
  refine ⟨t, sector, ?_⟩
  rw [step_due pending]
  exact hserve

/-- Whatever a host did so far, it can take the rest. -/
theorem Reading.finishes {d₀ : AtaDisk} {start count : ℕ} (hasks : d₀.Asks start count) (left : ℕ) :
    ∀ {s : AtaDisk × Log}, Reading d₀ start count s.1 s.2 →
      s.2.taken.length + left = 512 * count →
      ∃ steps, Served d₀ start count d₀.medium.image (Runs.exec watch steps s).1 := by
  have hlen : ∀ n, n ≤ count → (rangeBytes d₀.medium.image start n).length = 512 * n := by
    intro n hn
    have := hasks.le_image
    exact length_rangeBytes n (by omega)
  induction left with
  | zero =>
    intro s h hall
    cases h with
    | waiting n state taken blocks =>
      have hmore := state.more
      rw [taken, hlen n hmore.le] at hall
      omega
    | serving n pos sector state taken blocks =>
      have hmore := state.more
      have hwithin := state.within
      rw [taken, List.length_append, hlen n hmore.le, List.length_take, sector.full] at hall
      omega
    | done state taken blocks => exact ⟨[], state⟩
  | succ left ih =>
    -- an open block gives its next byte
    have hserving : ∀ {s : AtaDisk × Log} {n pos : ℕ} {sector : Sector},
        Serving d₀ start count n pos sector s.1 → Reading d₀ start count s.1 s.2 →
        s.2.taken.length + (left + 1) = 512 * count →
        ∃ steps, Served d₀ start count d₀.medium.image (Runs.exec watch steps s).1 := by
      intro s n pos sector state h hall
      have hone : (s.1.taken (.read primaryCmdBase 0)).length = 1 := by
        show (if _ then _ else _ : List UInt8).length = 1
        rw [if_pos ⟨rfl, drqSet_of_open state.status⟩, readPortAt_data]
        rfl
      obtain ⟨steps, hdone⟩ := ih (h.step hasks (.read primaryCmdBase 0)) (by
        show (s.2.taken ++ s.1.taken _).length + left = _
        rw [List.length_append, hone]
        omega)
      exact ⟨.read primaryCmdBase 0 :: steps, hdone⟩
    intro s h hall
    cases h with
    | waiting n state taken blocks =>
      obtain ⟨ticks, sector, hserve⟩ := state.due hasks
      have hstep := (Reading.waiting n state taken blocks).step hasks (.advance ticks)
      obtain ⟨steps, hdone⟩ := hserving (s := watch s (.advance ticks)) hserve hstep (by
        show (s.2.taken ++ []).length + _ = _
        rw [List.append_nil, hall])
      exact ⟨.advance ticks :: steps, hdone⟩
    | serving n pos sector state taken blocks =>
      exact hserving state (.serving n pos sector state taken blocks) hall
    | done state taken blocks =>
      rw [taken, hlen count le_rfl] at hall
      omega

end IzarraVM.Ata.AtaDisk
