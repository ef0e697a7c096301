import IzarraVM.BusMaster

/-! The memory frame of the bus-master engine: what it writes, and what armed it. -/
namespace IzarraVM.Bmide
open Checked (Slip run run_total)
open Ata (DmaDirection DmaRequest)

def PrdSpan.Good (memory : Memory) (span : PrdSpan) : Prop :=
  span.address + span.len ≤ memory.len ∧ span.address % 2 ^ 16 + span.len ≤ 2 ^ 16

structure Covers (memory : Memory) (spans : List PrdSpan) (bytes : ℕ) : Prop where
  total : (spans.map PrdSpan.len).sum = bytes
  good : ∀ span ∈ spans, span.Good memory

theorem Covers.snoc {memory : Memory} {spans : List PrdSpan} {bytes : ℕ}
    (h : Covers memory spans bytes) {span : PrdSpan} (hspan : span.Good memory) :
    Covers memory (spans ++ [span]) (bytes + span.len) where
  total := by
    rw [List.map_append, List.sum_append, h.total]
    simp
  good other hother := by
    rcases List.mem_append.mp hother with hold | hnew
    · exact h.good other hold
    · rw [List.mem_singleton.mp hnew]
      exact hspan

/-- The walk keeps the spans good and their sum at the bytes covered. -/
theorem parseEntries_covers {memory : Memory} {table pageEnd byteLen : ℕ} {direction : DmaDirection}
    (left : ℕ) {index covered : ℕ} {spans : List PrdSpan} {plan : PrdPlan}
    (hcovers : Covers memory spans covered)
    (h : parseEntries memory table pageEnd byteLen direction left index spans covered = some plan) :
    Covers memory plan.spans byteLen := by
  induction left generalizing index covered spans with
  | zero => cases h
  | succ left ih =>
    obtain ⟨address, -, h⟩ := Option.bind_eq_some_iff.mp h
    obtain ⟨descriptor, -, h⟩ := Option.bind_eq_some_iff.mp h
    dsimp only at h
    split_ifs at h with hpage hreserved hcount hinside hdone heot
    all_goals
      have hspan : PrdSpan.Good memory ⟨prdAddressFor direction address,
          min (prdCount descriptor) (byteLen - covered)⟩ := by
        constructor <;> dsimp only <;> omega
      have hnext := hcovers.snoc hspan
      dsimp only at hnext
    · -- the entry that covers the rest of the transfer
      cases h
      rw [hdone] at hnext
      exact hnext
    · exact ih hnext h

theorem parsePrds_covers {memory : Memory} {table : BitVec 32} {byteLen : ℕ}
    {direction : DmaDirection} {plan : PrdPlan}
    (h : parsePrds memory table byteLen direction = some plan) :
    Covers memory plan.spans byteLen := by
  unfold parsePrds at h
  dsimp only at h
  split_ifs at h
  exact parseEntries_covers _ ⟨rfl, fun _ hspan => absurd hspan List.not_mem_nil⟩ h

/-! Moving the data stays in range and inside the spans. -/

theorem slice_ok {bytes : List UInt8} {start len : ℕ} (h : start + len ≤ bytes.length) :
    ∃ chunk, slice bytes start len = .ok chunk ∧ chunk.length = len := by
  refine ⟨_, if_pos h, ?_⟩
  rw [List.length_take, List.length_drop]
  omega

theorem copyInto_ok {m : Memory} {address : ℕ} {bytes : List UInt8}
    (h : address + bytes.length ≤ m.len) :
    ∃ m', copyInto m address bytes = .ok m' ∧ m'.len = m.len ∧
      ∀ a, ¬ (address ≤ a ∧ a < address + bytes.length) → m'.readU8 a = m.readU8 a := by
  have hlen : address + bytes.length ≤ m.data.length := h
  refine ⟨_, if_pos h, ?_, fun a ha => ?_⟩
  · simp only [Memory.len, List.length_append, List.length_take, List.length_drop]
    omega
  · unfold Memory.readU8
    dsimp only
    by_cases hlow : a < address
    · rw [List.append_assoc, List.getElem?_append_left (by rw [List.length_take]; omega),
        List.getElem?_take_of_lt hlow]
    · rw [List.getElem?_append_right (by simp; omega), List.getElem?_drop]
      congr 1
      simp
      omega

/-- Spans that the payload covers are written in range, and no byte outside them is. -/
theorem scatterWrite_ok {payload : List UInt8} {spans : List PrdSpan} {position : ℕ} {m : Memory}
    (hgood : ∀ span ∈ spans, span.address + span.len ≤ m.len)
    (htotal : position + (spans.map PrdSpan.len).sum ≤ payload.length) :
    ∃ m', scatterWrite payload spans position m = .ok m' ∧ m'.len = m.len ∧
      ∀ a, (∀ span ∈ spans, ¬ (span.address ≤ a ∧ a < span.address + span.len)) →
        m'.readU8 a = m.readU8 a := by
  induction spans generalizing position m with
  | nil => exact ⟨m, rfl, rfl, fun _ _ => rfl⟩
  | cons span rest ih =>
    rw [List.map_cons, List.sum_cons] at htotal
    obtain ⟨chunk, hchunk, hlen⟩ := slice_ok (show position + span.len ≤ payload.length by omega)
    have hin : span.address + chunk.length ≤ m.len := by
      rw [hlen]
      exact hgood span List.mem_cons_self
    obtain ⟨m₁, hcopy, hkeep, hframe⟩ := copyInto_ok hin
    have hgood' : ∀ other ∈ rest, other.address + other.len ≤ m₁.len := by
      intro other hother
      rw [hkeep]
      exact hgood other (List.mem_cons_of_mem _ hother)
    have htotal' : position + span.len + (rest.map PrdSpan.len).sum ≤ payload.length := by omega
    obtain ⟨m₂, hrest, hkeep', hframe'⟩ := ih hgood' htotal'
    refine ⟨m₂, ?_, hkeep'.trans hkeep, fun a ha => ?_⟩
    · rw [scatterWrite, hchunk]
      show (copyInto m span.address chunk >>= _) = _
      rw [hcopy]
      exact hrest
    · rw [hframe' a fun other hother => ha other (List.mem_cons_of_mem _ hother)]
      apply hframe
      rw [hlen]
      exact ha span List.mem_cons_self

theorem gatherRead_ok {m : Memory} {spans : List PrdSpan}
    (hgood : ∀ span ∈ spans, span.address + span.len ≤ m.len) :
    ∃ payload, gatherRead m spans = .ok payload := by
  induction spans with
  | nil => exact ⟨[], rfl⟩
  | cons span rest ih =>
    obtain ⟨chunk, hchunk, -⟩ := slice_ok (hgood span List.mem_cons_self)
    obtain ⟨payload, hpayload⟩ := ih fun other hother => hgood other (List.mem_cons_of_mem _ hother)
    refine ⟨chunk ++ payload, ?_⟩
    rw [gatherRead, hchunk]
    show (gatherRead m rest >>= _) = _
    rw [hpayload]
    rfl

/-! Where a transfer comes from. -/

variable {D : Type} (port : DiskPort D)

structure Transfer.SamePlan (transfer other : Transfer) : Prop where
  direction : transfer.direction = other.direction
  spans : transfer.spans = other.spans
  byteLen : transfer.byteLen = other.byteLen

def Transfer.ArmedBy (transfer : Transfer) (s : State D) : Prop :=
  ∃ disk request plan, s.disk = some disk ∧ port.pendingDma disk = some request ∧
    parsePrds s.memory s.bus.primary.prdAddress request.byteLen request.direction = some plan ∧
    transfer.direction = request.direction ∧ transfer.spans = plan.spans ∧
    transfer.byteLen = request.byteLen

variable {port}

theorem Transfer.ArmedBy.of_samePlan {transfer other : Transfer} {s : State D}
    (h : other.ArmedBy port s) (hsame : transfer.SamePlan other) : transfer.ArmedBy port s := by
  obtain ⟨disk, request, plan, hdisk, hpending, hparse, hdirection, hspans, hbytes⟩ := h
  exact ⟨disk, request, plan, hdisk, hpending, hparse, hsame.direction.trans hdirection,
    hsame.spans.trans hspans, hsame.byteLen.trans hbytes⟩

theorem Transfer.ArmedBy.covers {transfer : Transfer} {s : State D} (h : transfer.ArmedBy port s) :
    Covers s.memory transfer.spans transfer.byteLen := by
  obtain ⟨disk, request, plan, -, -, hparse, -, hspans, hbytes⟩ := h
  rw [hspans, hbytes]
  exact parsePrds_covers hparse

theorem Channel.writeByte_transfer (channel : Channel) (register : ℕ) (value : BitVec 8) :
    (channel.writeByte register value).transfer = channel.transfer := by
  unfold Channel.writeByte
  dsimp only
  split_ifs <;> rfl

namespace BusMasterIde

theorem writeByte_transfer (b : BusMasterIde) (offset : ℕ) (value : BitVec 8) :
    (b.writeByte offset value).primary.transfer = b.primary.transfer := by
  unfold writeByte
  split_ifs
  · exact b.primary.writeByte_transfer offset value
  · rfl

theorem writeBytes_transfer (b : BusMasterIde) (offset bytes : ℕ) (value : BitVec 32) :
    (b.writeBytes offset bytes value).primary.transfer = b.primary.transfer := by
  unfold writeBytes
  generalize List.range bytes = indices
  induction indices generalizing b with
  | nil => rfl
  | cons index rest ih =>
    rw [List.foldl_cons, ih]
    exact b.writeByte_transfer _ _

/-- A port write keeps the transfer or fails it. -/
theorem writeIo_transfer (port : DiskPort D) (b : BusMasterIde) (ioPort bytes : ℕ) (value : BitVec 32)
    (disk : Option D) (base : ℕ) :
    (b.writeIo port ioPort bytes value disk base).1.primary.transfer = b.primary.transfer ∨
      (b.writeIo port ioPort bytes value disk base).1.primary.transfer = none := by
  have hwritten := b.writeBytes_transfer (ioPort - base) bytes value
  unfold writeIo
  cases disk with
  | none => exact Or.inl hwritten
  | some disk =>
    dsimp only
    split_ifs
    · exact Or.inl hwritten
    · exact Or.inr rfl
    · exact Or.inl hwritten

theorem retire_transfer (b : BusMasterIde) (transfer : Transfer) :
    (b.retire transfer).primary.transfer = b.primary.transfer := by
  unfold retire
  split_ifs <;> rfl

/-- Reconciling keeps the transfer, fails it, or arms the one the table describes. -/
theorem synchronize_transfer {s : State D} {disk : D} (hdisk : s.disk = some disk)
    (enabled : Bool) (prefixTicks : ℕ) {transfer : Transfer}
    (h : (s.bus.synchronize port enabled s.memory disk prefixTicks).1.primary.transfer =
      some transfer) :
    s.bus.primary.transfer = some transfer ∨ transfer.ArmedBy port s := by
  unfold synchronize at h
  split_ifs at h
  · cases h
  · exact Or.inl h
  · exact Or.inl h
  · exact Or.inl h
  · exact Or.inl h
  · cases hpending : port.pendingDma disk with
    | none =>
      rw [hpending] at h
      exact Or.inl h
    | some request =>
      rw [hpending] at h
      dsimp only at h
      unfold arm at h
      dsimp only at h
      split_ifs at h
      · cases h
      · cases hparse : parsePrds s.memory s.bus.primary.prdAddress request.byteLen
            request.direction with
        | none =>
          rw [hparse] at h
          cases h
        | some plan =>
          rw [hparse] at h
          cases h
          exact Or.inr ⟨disk, request, plan, hdisk, hpending, hparse, rfl, rfl, rfl⟩

inductive Advanced (port : DiskPort D) (b : BusMasterIde) (masterTicks : ℕ) (memory : Memory) (disk : D) :
    Completed D → Prop
  /-- No disk data reaches memory, and what is left of the transfer keeps its plan. -/
  | quiet {result : Completed D} (written : result.written = none)
      (kept : result.memory = memory)
      (plan : ∀ transfer', result.bus.primary.transfer = some transfer' →
        ∃ transfer, b.primary.transfer = some transfer ∧ transfer'.SamePlan transfer) :
      Advanced port b masterTicks memory disk result
  /-- A read of the disk completes: its payload is scattered over its spans. -/
  | read {result : Completed D} {transfer : Transfer} {payload : List UInt8} {disk' : D}
      (armed : b.primary.transfer = some transfer) (due : transfer.ticksRemaining ≤ masterTicks)
      (direction : transfer.direction = .deviceToMemory)
      (served : port.readDmaPayload disk = (some payload, disk'))
      (bytes : payload.length = transfer.byteLen)
      (written : result.written = some transfer.spans)
      (stored : scatterWrite payload transfer.spans 0 memory = .ok result.memory)
      (idle : result.bus.primary.transfer = none) :
      Advanced port b masterTicks memory disk result

/-- A failed completion. -/
theorem Advanced.failed {b : BusMasterIde} {masterTicks : ℕ} {memory : Memory} {disk disk' : D} :
    Advanced port b masterTicks memory disk
      ⟨none, ({ b with primary := { b.primary with transfer := none } }.failPrimary port disk').1,
        memory, ({ b with primary := { b.primary with transfer := none } }.failPrimary port
          disk').2⟩ :=
  .quiet rfl rfl nofun

/-- A due transfer whose spans lie inside memory completes or fails, in range. -/
theorem completePrimary_advanced {b : BusMasterIde} {transfer : Transfer} {masterTicks : ℕ}
    {memory : Memory} (disk : D) (harmed : b.primary.transfer = some transfer)
    (hdue : transfer.ticksRemaining ≤ masterTicks)
    (hcovers : Covers memory transfer.spans transfer.byteLen) :
    ∃ result, b.completePrimary port transfer memory disk = .ok result ∧
      Advanced port b masterTicks memory disk result := by
  have hgood : ∀ span ∈ transfer.spans, span.address + span.len ≤ memory.len :=
    fun span hspan => (hcovers.good span hspan).1
  unfold completePrimary
  dsimp only
  cases hdirection : transfer.direction with
  | deviceToMemory =>
    dsimp only
    rcases hserved : port.readDmaPayload disk with ⟨payload, disk'⟩
    cases payload with
    | none => exact ⟨_, rfl, .failed⟩
    | some payload =>
      dsimp only
      split_ifs with hbytes
      · exact ⟨_, rfl, .failed⟩
      · have hlength : payload.length = transfer.byteLen := not_not.mp hbytes
        have htotal : 0 + (transfer.spans.map PrdSpan.len).sum ≤ payload.length := by
          rw [hcovers.total, hlength, Nat.zero_add]
        obtain ⟨memory', hstored, -, -⟩ := scatterWrite_ok hgood htotal
        rw [hstored]
        refine ⟨_, rfl, .read harmed hdue hdirection hserved hlength rfl hstored ?_⟩
        exact retire_transfer _ transfer
  | memoryToDevice =>
    dsimp only
    obtain ⟨payload, hpayload⟩ := gatherRead_ok hgood
    rw [hpayload]
    simp only [bind, Except.bind]
    rcases port.completeDmaWrite disk payload with ⟨stored, disk'⟩
    cases stored with
    | false => exact ⟨_, rfl, .failed⟩
    | true =>
      refine ⟨_, rfl, .quiet rfl rfl fun transfer' h => ?_⟩
      rw [retire_transfer] at h
      cases h

theorem advanceMasterTicks_advanced (port : DiskPort D) {b : BusMasterIde} (masterTicks : ℕ)
    {memory : Memory} (disk : D)
    (hcovers : ∀ transfer, b.primary.transfer = some transfer →
      Covers memory transfer.spans transfer.byteLen) :
    ∃ result, b.advanceMasterTicks port masterTicks memory disk = .ok result ∧
      Advanced port b masterTicks memory disk result := by
  unfold advanceMasterTicks
  cases harmed : b.primary.transfer with
  | none =>
    refine ⟨_, rfl, .quiet rfl rfl fun transfer' h => ?_⟩
    rw [harmed] at h
    cases h
  | some transfer =>
    dsimp only
    split_ifs with hearly
    · refine ⟨_, rfl, .quiet rfl rfl fun transfer' h => ?_⟩
      cases h
      exact ⟨transfer, harmed, rfl, rfl, rfl⟩
    · exact completePrimary_advanced disk harmed (Nat.le_of_not_lt hearly) (hcovers _ harmed)

end BusMasterIde

structure Framed (port : DiskPort D) (armed : State D → Prop) (s : State D) (e : Event D)
    (r : Option (List PrdSpan) × State D) : Prop where
  len : r.2.memory.len = s.memory.len
  quiet : (∀ address value, e ≠ .store address value) → r.1 = none → r.2.memory = s.memory
  written : ∀ spans, r.1 = some spans → ∃ masterTicks disk transfer s₀ payload disk',
    e = .advance masterTicks ∧ s.disk = some disk ∧ s.bus.primary.transfer = some transfer ∧
    transfer.ticksRemaining ≤ masterTicks ∧ transfer.direction = .deviceToMemory ∧
    spans = transfer.spans ∧ armed s₀ ∧ transfer.ArmedBy port s₀ ∧
    port.readDmaPayload disk = (some payload, disk') ∧ payload.length = transfer.byteLen ∧
    scatterWrite payload spans 0 s.memory = .ok r.2.memory ∧
    ∀ a, (∀ span ∈ spans, ¬ (span.address ≤ a ∧ a < span.address + span.len)) →
      r.2.memory.readU8 a = s.memory.readU8 a

def State.Provenance (port : DiskPort D) (armed : State D → Prop) (s : State D) : Prop :=
  ∀ transfer, s.bus.primary.transfer = some transfer →
    ∃ s₀, armed s₀ ∧ s₀.memory.len = s.memory.len ∧ transfer.ArmedBy port s₀

theorem Covers.of_len {memory memory' : Memory} {spans : List PrdSpan} {bytes : ℕ}
    (h : Covers memory spans bytes) (hlen : memory.len = memory'.len) :
    Covers memory' spans bytes where
  total := h.total
  good span hspan := by
    obtain ⟨hinside, hpage⟩ := h.good span hspan
    rw [hlen] at hinside
    exact ⟨hinside, hpage⟩

/-- A step that keeps memory and, up to its time, the transfer in flight. -/
theorem framed_of_kept {armed : State D → Prop} {s s' : State D} {e : Event D}
    (hprov : s.Provenance port armed) (hmemory : s'.memory = s.memory)
    (htransfer : ∀ transfer', s'.bus.primary.transfer = some transfer' →
      (∃ transfer, s.bus.primary.transfer = some transfer ∧ transfer'.SamePlan transfer) ∨
        transfer'.ArmedBy port s) (hs : armed s) :
    Framed port armed s e (none, s') ∧ s'.Provenance port armed := by
  refine ⟨⟨congrArg Memory.len hmemory, fun _ _ => hmemory, nofun⟩, fun transfer' h => ?_⟩
  rw [hmemory]
  rcases htransfer transfer' h with ⟨transfer, hold, hsame⟩ | hnew
  · obtain ⟨s₀, harmed, hlen, harmedBy⟩ := hprov transfer hold
    exact ⟨s₀, harmed, hlen, harmedBy.of_samePlan hsame⟩
  · exact ⟨s, hs, rfl, hnew⟩

/-- A store keeps memory's size. -/
theorem store_len (m : Memory) (address : ℕ) (value : UInt8) :
    ((m.writeU8 address value).getD m).len = m.len := by
  cases h : m.writeU8 address value with
  | none => rfl
  | some m' => exact Memory.writeU8_len h

/-- Every step stays in range, is framed and keeps the provenance of the transfer in flight. -/
theorem step_framed {armed : State D → Prop} {s : State D} (hprov : s.Provenance port armed)
    (hs : armed s) (e : Event D) :
    ∃ r, s.step port e = .ok r ∧ Framed port armed s e r ∧ r.2.Provenance port armed := by
  have hsame {bus : BusMasterIde} (h : bus.primary.transfer = s.bus.primary.transfer) :
      ∀ transfer', bus.primary.transfer = some transfer' →
        (∃ transfer, s.bus.primary.transfer = some transfer ∧ transfer'.SamePlan transfer) ∨
          transfer'.ArmedBy port s := by
    intro transfer' h'
    exact Or.inl ⟨transfer', h.symm.trans h', rfl, rfl, rfl⟩
  cases e with
  | writeIo ioPort bytes value base =>
    rw [State.step]
    split_ifs
    · refine ⟨_, rfl, framed_of_kept hprov rfl (fun transfer' h => ?_) hs⟩
      rcases BusMasterIde.writeIo_transfer port s.bus ioPort bytes value s.disk base with hkept | hnone
      · exact hsame hkept transfer' h
      · have habs : none = some transfer' := hnone.symm.trans h
        cases habs
    · exact ⟨_, rfl, framed_of_kept hprov rfl (hsame rfl) hs⟩
  | synchronize enabled prefixTicks =>
    rw [State.step]
    cases hdisk : s.disk with
    | none => exact ⟨_, rfl, framed_of_kept hprov rfl (hsame rfl) hs⟩
    | some disk =>
      refine ⟨_, rfl, framed_of_kept hprov rfl (fun transfer' h => ?_) hs⟩
      rcases BusMasterIde.synchronize_transfer hdisk enabled prefixTicks h with hkept | hnew
      · exact Or.inl ⟨transfer', hkept, rfl, rfl, rfl⟩
      · exact Or.inr hnew
  | advance masterTicks =>
    rw [State.step]
    cases hdisk : s.disk with
    | none => exact ⟨_, rfl, framed_of_kept hprov rfl (hsame rfl) hs⟩
    | some disk =>
      have hcovers : ∀ transfer, s.bus.primary.transfer = some transfer →
          Covers s.memory transfer.spans transfer.byteLen := by
        intro transfer h
        obtain ⟨s₀, -, hlen, harmedBy⟩ := hprov transfer h
        exact harmedBy.covers.of_len hlen
      obtain ⟨result, hresult, hadvanced⟩ :=
        BusMasterIde.advanceMasterTicks_advanced port masterTicks disk hcovers
      dsimp only
      rw [hresult]
      refine ⟨_, rfl, ?_⟩
      cases hadvanced with
      | quiet hwritten hkept hplan =>
        rw [hwritten]
        exact framed_of_kept hprov hkept (fun transfer' h => Or.inl (hplan transfer' h)) hs
      | read harmed hdue hdirection hserved hbytes hwritten hstored hidle =>
        rename_i transfer payload disk'
        have hcover := hcovers transfer harmed
        have htotal : 0 + (transfer.spans.map PrdSpan.len).sum ≤ payload.length := by
          rw [hcover.total, hbytes, Nat.zero_add]
        obtain ⟨memory', hstored', hlen, hframe⟩ :=
          scatterWrite_ok (fun span hspan => (hcover.good span hspan).1) htotal
        rw [hstored] at hstored'
        cases hstored'
        obtain ⟨s₀, hs₀, -, harmedBy⟩ := hprov transfer harmed
        rw [hwritten]
        refine ⟨⟨hlen, nofun, fun spans h => ?_⟩, fun transfer' h => ?_⟩
        · cases h
          exact ⟨masterTicks, disk, transfer, s₀, payload, disk', rfl, hdisk, harmed, hdue,
            hdirection, rfl, hs₀, harmedBy, hserved, hbytes, hstored, hframe⟩
        · have habs : none = some transfer' := hidle.symm.trans h
          cases habs
  | noteIdeIrq secondary =>
    refine ⟨_, rfl, framed_of_kept hprov rfl (hsame ?_) hs⟩
    cases secondary <;> rfl
  | mount disk => exact ⟨_, rfl, framed_of_kept hprov rfl nofun hs⟩
  | device disk => exact ⟨_, rfl, framed_of_kept hprov rfl (hsame rfl) hs⟩
  | store address value =>
    have hlen := store_len s.memory address value
    refine ⟨_, rfl, ⟨hlen, fun hne => absurd rfl (hne address value), nofun⟩, fun transfer h => ?_⟩
    obtain ⟨s₀, harmed, hlen₀, harmedBy⟩ := hprov transfer h
    exact ⟨s₀, harmed, hlen₀.trans hlen.symm, harmedBy⟩

def State.next (port : DiskPort D) (s : State D) (e : Event D) : Except Slip (State D) :=
  (s.step port e).map Prod.snd

def ReachedIn (port : DiskPort D) (events : List (Event D)) (start s : State D) : Prop :=
  ∃ before after, events = before ++ after ∧ run (State.next port) before start = .ok s

theorem ReachedIn.snoc {events : List (Event D)} {start s : State D}
    (h : ReachedIn port events start s) (e : Event D) : ReachedIn port (events ++ [e]) start s := by
  obtain ⟨before, after, rfl, hrun⟩ := h
  exact ⟨before, after ++ [e], List.append_assoc _ _ _, hrun⟩

/-- Every run stays in range, and every transfer in flight was armed in a state it has been in. -/
theorem run_provenance (port : DiskPort D) (disk : Option D) (memory : Memory)
    (events : List (Event D)) :
    ∃ s, run (State.next port) events ⟨BusMasterIde.powerOn, disk, memory⟩ = .ok s ∧
      s.Provenance port (ReachedIn port events ⟨BusMasterIde.powerOn, disk, memory⟩) := by
  refine run_total (H := fun events s => State.Provenance port
    (ReachedIn port events ⟨BusMasterIde.powerOn, disk, memory⟩) s) ?_ ?_ events
  · intro transfer h
    cases h
  intro events s e hrun hprov
  obtain ⟨r, hr, -, hprov'⟩ := step_framed hprov ⟨events, [], (List.append_nil _).symm, hrun⟩ e
  refine ⟨r.2, ?_, fun transfer h => ?_⟩
  · rw [State.next, hr]
    rfl
  · obtain ⟨s₀, hs₀, hlen, harmedBy⟩ := hprov' transfer h
    exact ⟨s₀, hs₀.snoc e, hlen, harmedBy⟩

/-- The memory frame. A parsed table covers its transfer exactly; in every run only a guest store,
or a read that an earlier state armed, changes memory, the read inside its spans alone. -/
structure MemoryFrame (port : DiskPort D) : Prop where
  parsed : ∀ memory table byteLen direction plan,
    parsePrds memory table byteLen direction = some plan → Covers memory plan.spans byteLen
  framed : ∀ disk memory events, ∃ s,
    run (State.next port) events ⟨BusMasterIde.powerOn, disk, memory⟩ = .ok s ∧
    ∀ e, ∃ r, s.step port e = .ok r ∧
      Framed port (ReachedIn port events ⟨BusMasterIde.powerOn, disk, memory⟩) s e r

/-- The frame holds whatever the disk does. -/
theorem memory_frame (port : DiskPort D) : MemoryFrame port := by
  refine ⟨fun _ _ _ _ _ => parsePrds_covers, fun disk memory events => ?_⟩
  obtain ⟨s, hrun, hprov⟩ := run_provenance port disk memory events
  refine ⟨s, hrun, fun e => ?_⟩
  obtain ⟨r, hr, hframed, -⟩ := step_framed hprov ⟨events, [], (List.append_nil _).symm, hrun⟩ e
  exact ⟨r, hr, hframed⟩

theorem ata_memory_frame : MemoryFrame ataPort := memory_frame ataPort

end IzarraVM.Bmide
