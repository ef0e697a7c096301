import IzarraVM.AtaPioRead

/-! WRITE SECTORS by programmed I/O: a block a sector, each stored before the next opens. -/
namespace IzarraVM.Ata.AtaDisk

theorem given_of_not_drq {d : AtaDisk} (hdrq : d.drqSet = false) (h : HostStep) :
    d.given h = [] := by
  cases h with
  | writeData value prefixTicks => exact if_neg fun hr => by simp [hdrq] at hr
  | _ => rfl

theorem given_of_quiet {d : AtaDisk} {h : HostStep} (hno : ∀ v p, h ≠ .writeData v p) :
    d.given h = [] := by
  cases h with
  | writeData value prefixTicks => exact absurd rfl (hno value prefixTicks)
  | _ => rfl

theorem watch_given (log : Log) {d : AtaDisk} (hdrq : d.drqSet = false) (host : HostStep) :
    (watch (d, log) host).2.given = log.given := by
  show log.given ++ d.given host = _
  rw [given_of_not_drq hdrq, List.append_nil]

theorem watch_put (log : Log) {d : AtaDisk} (hdrq : d.drqSet = true) (v : UInt8) (p : ℕ) :
    (watch (d, log) (.writeData v p)).2.given = log.given ++ [v] :=
  congrArg (log.given ++ ·) (if_pos hdrq)

structure Preparing (d₀ : AtaDisk) (start count : ℕ) (d : AtaDisk) : Prop where
  through : Through d₀ start count 0 d
  image : d.medium.image = d₀.medium.image
  phase : d.phase = .idle
  status : d.status = Status.bsy
  pending : ∃ t, d.pendingCommand = some ⟨t, .prepareWrite⟩

structure Filling (d₀ : AtaDisk) (start count n : ℕ) (data : List UInt8) (d : AtaDisk) : Prop where
  more : n < count
  within : (data.drop (512 * n)).length < 512
  enough : 512 * n ≤ data.length
  through : Through d₀ start count n d
  image : d.medium.image = stored d₀.medium.image start data n
  phase : d.phase = .dataOut
  status : d.status = Status.drdy ||| Status.drq ||| Status.dsc
  pending : d.pendingCommand = none
  buffer : d.buffer = data.drop (512 * n) ++ List.replicate (512 - (data.drop (512 * n)).length) 0
  bufferPos : d.bufferPos = (data.drop (512 * n)).length

structure Committing (d₀ : AtaDisk) (start count n : ℕ) (data : List UInt8) (d : AtaDisk) :
    Prop where
  more : n < count
  full : data.length = 512 * (n + 1)
  through : Through d₀ start count n d
  image : d.medium.image = stored d₀.medium.image start data n
  phase : d.phase = .idle
  status : d.status = Status.bsy
  pending : ∃ t, d.pendingCommand = some ⟨t, .commitWrite⟩
  buffer : d.buffer = data.drop (512 * n)

variable {d₀ d : AtaDisk}

variable {start count n : ℕ}

variable {data : List UInt8}

theorem prepareWriteSector_filling
    (hmore : n < count) (hdata : data.length = 512 * n) (hthrough : Through d₀ start count n d)
    (himage : d.medium.image = stored d₀.medium.image start data n)
    (hpending : d.pendingCommand = none) (raise : Bool) :
    Filling d₀ start count n data (d.prepareWriteSector raise) := by
  have hnone : data.drop (512 * n) = [] := List.drop_of_length_le (by omega)
  cases raise with
  | _ =>
    refine ⟨hmore, ?_, by omega, { hthrough with }, himage, rfl, rfl, hpending,
      ?_, ?_⟩
    · rw [hnone]
      decide
    · rw [hnone]
      rfl
    · rw [hnone]
      rfl

/-- The first block falls due and opens empty. -/
theorem Preparing.opens {start count : ℕ} (hasks : d₀.Asks start count)
    (h : Preparing d₀ start count d) :
    Filling d₀ start count 0 []
      ({ d with pendingCommand := none }.finishPending .prepareWrite) := by
  have hthrough : Through d₀ start count 0 { d with pendingCommand := none } :=
    { h.through with }
  exact prepareWriteSector_filling hasks.count_pos rfl hthrough h.image rfl false

/-- A store that falls due puts the sector on the disk; then the next block opens, or the
command is done. -/
theorem Committing.stores
    (hasks : d₀.Asks start count) (h : Committing d₀ start count n data d) :
    Filling d₀ start count (n + 1) data
        ({ d with pendingCommand := none }.finishPending .commitWrite) ∨
      n + 1 = count ∧ Served d₀ start count (stored d₀.medium.image start data count)
        ({ d with pendingCommand := none }.finishPending .commitWrite) := by
  have hlt := hasks.le_image
  have hmore := h.more
  have hfull := h.full
  have hlba : d.pioLba < d.medium.image.length := by
    rw [h.through.lba, h.image, length_stored]
    omega
  have hbuffer : 512 ≤ d.buffer.length := by
    rw [h.buffer, List.length_drop]
    omega
  obtain ⟨m, hwrite⟩ := Medium.writeLba_isSome hlba hbuffer
  have himage : m.image = stored d₀.medium.image start data (n + 1) := by
    rw [Medium.writeLba_eq_some hwrite, h.through.lba, h.image, h.buffer]
    rfl
  -- the disk with the sector stored, before it is counted
  obtain ⟨w, hw⟩ : ∃ w : AtaDisk, w = { d with
      pendingCommand := none, buffer := [], bufferPos := 0, medium := m, dirty := true,
      lastAccessBytes := d.lastAccessBytes + 512 } := ⟨_, rfl⟩
  have hfinish : { d with pendingCommand := none }.finishPending .commitWrite =
      w.countSector.sectorStored := by
    show commitWriteSector { d with pendingCommand := none } = _
    unfold commitWriteSector writeLba
    rw [show Medium.writeLba _ _ _ = some m from hwrite, hw]
    rfl
  have hthrough : Through d₀ start count n w := by
    rw [hw]
    exact { h.through with }
  have hcounted := hthrough.countSector hmore hasks.lt
  have hmedium : w.countSector.medium.image = stored d₀.medium.image start data (n + 1) := by
    rw [countSector_medium, hw]
    exact himage
  have hpending : w.countSector.pendingCommand = none := by
    rw [(countSector_stage_fields w).2.1, hw]
  rw [hfinish]
  unfold sectorStored
  by_cases hlast : n + 1 < count
  · left
    rw [if_pos (by rw [hcounted.left]; omega)]
    exact prepareWriteSector_filling hlast hfull hcounted hmedium hpending true
  · right
    obtain rfl : n + 1 = count := by omega
    rw [if_neg (by rw [hcounted.left]; omega)]
    exact ⟨rfl, { hcounted with }, hmedium, rfl, rfl, hpending⟩

/-- A byte given to an open block goes to its next place; the last one schedules the store. -/
theorem Filling.put
    (h : Filling d₀ start count n data d) (value : UInt8) (p : ℕ) :
    Filling d₀ start count n (data ++ [value]) (d.writeDataByte value p) ∨
      Committing d₀ start count n (data ++ [value]) (d.writeDataByte value p) := by
  have hwithin := h.within
  have henough := h.enough
  have hdrop : (data ++ [value]).drop (512 * n) = data.drop (512 * n) ++ [value] :=
    List.drop_append_of_le_length henough
  have himage := stored_append d₀.medium.image start henough [value]
  generalize hblock : data.drop (512 * n) = block at hwithin hdrop
  have hbuffer : d.buffer = block ++ List.replicate (512 - block.length) 0 := by
    rw [← hblock]
    exact h.buffer
  have hpos : d.bufferPos = block.length := by
    rw [← hblock]
    exact h.bufferPos
  have hset : d.buffer.set d.bufferPos value =
      block ++ [value] ++ List.replicate (512 - (block ++ [value]).length) 0 := by
    obtain ⟨k, hk⟩ : ∃ k, 512 - block.length = k + 1 := ⟨511 - block.length, by omega⟩
    have hk' : 512 - (block ++ [value]).length = k := by
      rw [List.length_append, List.length_singleton]
      omega
    rw [hbuffer, hpos, hk, hk', List.set_append_right _ _ (Nat.le_refl _), Nat.sub_self,
      List.replicate_succ, List.set_cons_zero, List.append_assoc]
    rfl
  have hlen : d.buffer.length = 512 := by
    rw [hbuffer, List.length_append, List.length_replicate]
    omega
  have hstore : d.storeDataByte value =
      { d with
        buffer := block ++ [value] ++ List.replicate (512 - (block ++ [value]).length) 0
        bufferPos := block.length + 1 } := by
    unfold storeDataByte
    rw [if_pos (by rw [hpos, hlen]; omega), hset, hpos]
  unfold writeDataByte
  rw [if_neg (not_not.mpr h.phase), hstore]
  unfold blockFilled
  have hsize : (block ++ [value] ++
      List.replicate (512 - (block ++ [value]).length) (0 : UInt8)).length = 512 := by
    rw [List.length_append, List.length_replicate, List.length_append, List.length_singleton]
    omega
  have hthrough := h.through
  by_cases hmore : block.length + 1 < 512
  · left
    rw [if_pos (show block.length + 1 < List.length _ by rw [hsize]; exact hmore)]
    refine ⟨h.more, ?_, ?_, { hthrough with }, h.image.trans himage.symm,
      h.phase, h.status, h.pending, ?_, ?_⟩
    · rw [hdrop, List.length_append]
      exact hmore
    · rw [List.length_append]
      omega
    · rw [hdrop]
    · rw [hdrop, List.length_append]
      rfl
  · right
    rw [if_neg (show ¬ block.length + 1 < List.length _ by rw [hsize]; exact hmore)]
    refine ⟨h.more, ?_, { hthrough with }, h.image.trans himage.symm, rfl, rfl,
      ⟨_, rfl⟩, ?_⟩
    · have hlength := congrArg List.length hblock
      rw [List.length_drop] at hlength
      rw [List.length_append, List.length_singleton]
      omega
    · show block ++ [value] ++ List.replicate (512 - (block ++ [value]).length) 0 = _
      rw [hdrop, List.length_append, List.length_singleton,
        show 512 - (block.length + 1) = 0 by omega, List.replicate_zero, List.append_nil]

theorem Filling.other
    (h : Filling d₀ start count n data d) {host : HostStep} (hno : ∀ v p, host ≠ .writeData v p) :
    Filling d₀ start count n data (d.step host.event) := by
  obtain ⟨irq, heq⟩ := step_quiet host (.inl h.pending) (.inl (by rw [h.phase]; decide)) (.inr hno)
  rw [heq]
  exact { h with through := { h.through with } }

inductive Writing (d₀ : AtaDisk) (start count : ℕ) (d : AtaDisk) (log : Log) : Prop
  | preparing (state : Preparing d₀ start count d) (given : log.given = [])
      (blocks : log.blocks = [])
  | filling (n : ℕ) (state : Filling d₀ start count n log.given d)
      (blocks : log.blocks = List.replicate (n + 1) 512)
  | committing (n : ℕ) (state : Committing d₀ start count n log.given d)
      (blocks : log.blocks = List.replicate (n + 1) 512)
  | done (state : Served d₀ start count (stored d₀.medium.image start log.given count) d)
      (given : log.given.length = 512 * count) (blocks : log.blocks = List.replicate count 512)

theorem Filling.announced {log : Log} {host : HostStep} (hdrq : d.drqSet = false)
    (h : Filling d₀ start count n data (d.step host.event)) :
    (watch (d, log) host).2.blocks = log.blocks ++ [512] := by
  have hwithin := h.within
  rw [watch_rising log hdrq (drqSet_of_open h.status), h.buffer, List.length_append,
    List.length_replicate]
  congr 2
  omega

/-- One step of the host keeps the write on its course. -/
theorem Writing.step {start count : ℕ} {log : Log}
    (hasks : d₀.Asks start count) (h : Writing d₀ start count d log) (host : HostStep) :
    Writing d₀ start count (watch (d, log) host).1 (watch (d, log) host).2 := by
  cases h with
  | preparing state given blocks =>
    have hdrq := drqSet_of_bsy state.status
    have hgiven := (watch_given log hdrq host).trans given
    obtain ⟨t, pending⟩ := state.pending
    rcases step_scheduled pending state.phase host with ⟨irq, t', heq⟩ | heq
    · have hnext : Preparing d₀ start count (d.step host.event) := by
        rw [heq]
        exact { state with
          through := { state.through with }, pending := ⟨t', rfl⟩ }
      exact .preparing hnext hgiven ((watch_closed log (drqSet_of_bsy hnext.status)).trans blocks)
    · have hnext : Filling d₀ start count 0 [] (d.step host.event) := by
        rw [heq]
        exact state.opens hasks
      refine .filling 0 ?_ ?_
      · rw [hgiven]
        exact hnext
      · rw [hnext.announced hdrq, blocks]
        rfl
  | filling n state blocks =>
    have hdrq := drqSet_of_open state.status
    have hblocks := (watch_open log hdrq host).trans blocks
    by_cases hwrite : ∃ v p, host = .writeData v p
    · obtain ⟨v, p, rfl⟩ := hwrite
      have hstep : (watch (d, log) (.writeData v p)).1 = d.writeDataByte v p := step_writeData ..
      rcases state.put v p with hfill | hcommit
      · refine .filling n ?_ hblocks
        rw [watch_put log hdrq, hstep]
        exact hfill
      · refine .committing n ?_ hblocks
        rw [watch_put log hdrq, hstep]
        exact hcommit
    · have hno : ∀ v p, host ≠ .writeData v p := fun v p hp => hwrite ⟨v, p, hp⟩
      refine .filling n ?_ hblocks
      show Filling d₀ start count n (log.given ++ d.given host) _
      rw [given_of_quiet hno, List.append_nil]
      exact state.other hno
  | committing n state blocks =>
    have hdrq := drqSet_of_bsy state.status
    have hgiven := watch_given log hdrq host
    obtain ⟨t, pending⟩ := state.pending
    rcases step_scheduled pending state.phase host with ⟨irq, t', heq⟩ | heq
    · have hnext : Committing d₀ start count n log.given (d.step host.event) := by
        rw [heq]
        exact { state with
          through := { state.through with }, pending := ⟨t', rfl⟩ }
      refine .committing n ?_ ((watch_closed log (drqSet_of_bsy hnext.status)).trans blocks)
      rw [hgiven]
      exact hnext
    · have hstores := state.stores hasks
      rw [← heq] at hstores
      rcases hstores with hfill | ⟨rfl, hdone⟩
      · refine .filling (n + 1) ?_ ?_
        · rw [hgiven]
          exact hfill
        · rw [hfill.announced hdrq, blocks, List.replicate_succ' (n := n + 1)]
      · refine .done ?_ ?_ ((watch_closed log (drqSet_of_done hdone.status)).trans blocks)
        · rw [hgiven]
          exact hdone
        · rw [hgiven]
          exact state.full
  | done state given blocks =>
    have hgiven := watch_given log (drqSet_of_done state.status) host
    have hnext := state.step host
    refine .done ?_ ?_ ((watch_closed log (drqSet_of_done hnext.status)).trans blocks)
    · rw [hgiven]
      exact hnext
    · rw [hgiven, given]

section Runs

variable (hasks : d₀.Asks start count) {s : AtaDisk × Log}
include hasks

theorem Writing.run (steps : List HostStep) (h : Writing d₀ start count s.1 s.2) :
    Writing d₀ start count (Runs.exec watch steps s).1 (Runs.exec watch steps s).2 := by
  induction steps generalizing s with
  | nil => exact h
  | cons host rest ih => exact ih (h.step hasks host)

/-- A write with bytes to come has a block open, at most one deadline away. -/
theorem Writing.ready (h : Writing d₀ start count s.1 s.2)
    (hmore : s.2.given.length < 512 * count) :
    ∃ steps n, Filling d₀ start count n s.2.given (Runs.exec watch steps s).1 ∧
      (Runs.exec watch steps s).2.given = s.2.given := by
  cases h with
  | preparing state given blocks =>
    obtain ⟨t, pending⟩ := state.pending
    refine ⟨[.advance t], 0, ?_, List.append_nil _⟩
    show Filling d₀ start count 0 s.2.given (s.1.step (HostStep.advance t).event)
    rw [given, step_due pending]
    exact state.opens hasks
  | filling n state blocks => exact ⟨[], n, state, rfl⟩
  | committing n state blocks =>
    obtain ⟨t, pending⟩ := state.pending
    refine ⟨[.advance t], n + 1, ?_, List.append_nil _⟩
    show Filling d₀ start count (n + 1) s.2.given (s.1.step (HostStep.advance t).event)
    rw [step_due pending]
    rcases state.stores hasks with hfill | ⟨rfl, -⟩
    · exact hfill
    · exact absurd state.full hmore.ne
  | done state given blocks => exact absurd given hmore.ne

/-- A write that has all its bytes is done, at most one deadline away. -/
theorem Writing.settles (h : Writing d₀ start count s.1 s.2)
    (hall : s.2.given.length = 512 * count) :
    ∃ steps, Served d₀ start count (stored d₀.medium.image start s.2.given count)
        (Runs.exec watch steps s).1 ∧ (Runs.exec watch steps s).2.given = s.2.given := by
  have hpos := hasks.count_pos
  cases h with
  | preparing state given blocks =>
    rw [given, List.length_nil] at hall
    omega
  | filling n state blocks =>
    have hmore := state.more
    have hwithin := state.within
    rw [List.length_drop] at hwithin
    omega
  | committing n state blocks =>
    obtain ⟨t, pending⟩ := state.pending
    refine ⟨[.advance t], ?_, List.append_nil _⟩
    show Served d₀ start count _ (s.1.step (HostStep.advance t).event)
    rw [step_due pending]
    rcases state.stores hasks with hfill | ⟨-, hdone⟩
    · have hmore := hfill.more
      have hfull := state.full
      omega
    · exact hdone
  | done state given blocks => exact ⟨[], state, rfl⟩

/-- Whatever a host did so far, it can give the rest, and the write stores it all. -/
theorem Writing.finishes (rest : List UInt8) : ∀ {s : AtaDisk × Log}, Writing d₀ start count s.1 s.2 →
      s.2.given.length + rest.length = 512 * count →
      ∃ steps, Served d₀ start count (stored d₀.medium.image start (s.2.given ++ rest) count)
          (Runs.exec watch steps s).1 ∧ (Runs.exec watch steps s).2.given = s.2.given ++ rest := by
  induction rest with
  | nil =>
    intro s h hall
    rw [List.append_nil]
    exact h.settles hasks hall
  | cons v rest ih =>
    intro s h hall
    rw [List.length_cons] at hall
    obtain ⟨before, n, hfill, hsame⟩ := h.ready hasks (by omega)
    have hrun := (h.run hasks before).step hasks (.writeData v 0)
    generalize hs' : Runs.exec watch before s = s' at hfill hsame hrun
    have hgiven : (watch s' (.writeData v 0)).2.given = s.2.given ++ [v] := by
      rw [← hsame]
      exact watch_put s'.2 (drqSet_of_open hfill.status) v 0
    obtain ⟨steps, hdone, hend⟩ := ih hrun (by
      rw [hgiven, List.length_append, List.length_singleton]
      omega)
    refine ⟨before ++ .writeData v 0 :: steps, ?_, ?_⟩
    · rw [Runs.exec_append, hs', Runs.exec_cons, List.append_cons, ← hgiven]
      exact hdone
    · rw [Runs.exec_append, hs', Runs.exec_cons, List.append_cons, ← hgiven]
      exact hend

end Runs

end IzarraVM.Ata.AtaDisk
