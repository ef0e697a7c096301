import IzarraVM.KeyboardDelivery

/-! Mouse motion is neither lost nor made up. -/
namespace IzarraVM.Kbc

abbrev Displacement : Type := ℤ × ℤ × ℤ

namespace Mouse

def field (sign : Bool) (low : Byte) : ℤ := low.toNat - if sign then 256 else 0

def decode : List Byte → Displacement
  | flags :: x :: y :: wheel =>
    (field (flags.getLsbD 4) x, -field (flags.getLsbD 5) y, (wheel.head?.map BitVec.toInt).getD 0)
  | _ => 0

variable (m : Mouse)

def onAxes (d : Displacement) : Displacement := (d.1, d.2.1, if m.intellimouse then d.2.2 else 0)

def pending : Displacement := m.onAxes (m.pendingDx, m.pendingDy, m.pendingDz)

def packetLength : ℕ := if m.intellimouse then 4 else 3

theorem onAxes_add (d e : Displacement) : m.onAxes (d + e) = m.onAxes d + m.onAxes e := by
  unfold onAxes
  split_ifs
  · rfl
  · simp

theorem pending_hostUpdate {dx dy dz : ℤ} (buttons : Byte)
    (hx : clampI32 (m.pendingDx + dx) = m.pendingDx + dx)
    (hy : clampI32 (m.pendingDy + dy) = m.pendingDy + dy)
    (hz : clampI32 (m.pendingDz + dz) = m.pendingDz + dz) :
    (m.hostUpdate dx dy dz buttons).pending = m.pending + m.onAxes (dx, dy, dz) := by
  show m.onAxes (clampI32 _, clampI32 _, clampI32 _) = m.onAxes _ + _
  rw [hx, hy, hz, ← onAxes_add]
  rfl

theorem clampInt_of_mem {v lo hi : ℤ} (hlo : lo ≤ v) (hhi : v ≤ hi) : clampInt v lo hi = v := by
  unfold clampInt
  omega

theorem clampInt_mem (v : ℤ) {lo hi : ℤ} (h : lo ≤ hi) : lo ≤ clampInt v lo hi ∧ clampInt v lo hi ≤ hi := by
  unfold clampInt
  omega

theorem field_lowByte {v : ℤ} (hlo : -256 ≤ v) (hhi : v ≤ 255) :
    field (decide (v < 0)) (lowByte v) = v := by
  unfold field lowByte
  rw [BitVec.toNat_ofInt]
  by_cases hneg : v < 0
  · rw [if_pos (decide_eq_true hneg)]
    omega
  · rw [if_neg (by simpa using hneg)]
    omega

/-- The two signs stand apart from the buttons. -/
theorem packet_signs (buttons : Byte) (left up : Prop) [Decidable left] [Decidable up] :
    let flags := 0x08#8 ||| (buttons &&& 0x07#8) ||| (if left then 0x10#8 else 0) |||
      (if up then 0x20#8 else 0)
    flags.getLsbD 4 = decide left ∧ flags.getLsbD 5 = decide up := by
  by_cases left <;> by_cases up <;> simp [*]

/-- A packet says what it was made of, as far as its fields reach. -/
theorem decode_packet {dx dy dz : ℤ} (buttons : Byte) (hx : -256 ≤ dx ∧ dx ≤ 255)
    (hy : -255 ≤ dy ∧ dy ≤ 256) (hz : -8 ≤ dz ∧ dz ≤ 7) :
    decode (m.packet dx dy buttons dz) = m.onAxes (dx, dy, dz) := by
  have hcx := clampInt_of_mem hx.1 hx.2
  have hcy : clampInt (-dy) (-256) 255 = -dy := clampInt_of_mem (by omega) (by omega)
  have hcz := clampInt_of_mem hz.1 hz.2
  obtain ⟨hleft, hup⟩ := packet_signs buttons (dx < 0) (-dy < 0)
  have hwheel : (lowByte dz).toInt = dz := by
    unfold lowByte
    rw [BitVec.toInt_ofInt]
    exact Int.bmod_eq_of_le (by omega) (by omega)
  have hlast : (((if m.intellimouse then [lowByte dz] else []).head?).map BitVec.toInt).getD 0 =
      if m.intellimouse then dz else 0 := by
    split_ifs
    · exact hwheel
    · rfl
  unfold packet onAxes
  simp only [hcx, hcy, hcz, List.cons_append, List.nil_append, decode, hleft, hup, hlast]
  rw [field_lowByte hx.1 hx.2, field_lowByte (by omega) (by omega), neg_neg]

theorem length_packet (dx dy : ℤ) (buttons : Byte) (dz : ℤ) :
    (m.packet dx dy buttons dz).length = m.packetLength := by
  unfold packet packetLength
  dsimp only
  split_ifs <;> rfl

/-- What a sample reports, it takes from the accumulators. -/
theorem sample_cases (h : m.reporting = true) : m.sample.2 = m ∨
    m.queue = [] ∧ m.sample.2.queue.length = m.packetLength ∧ m.sample.2.reporting = true ∧
      m.sample.2.intellimouse = m.intellimouse ∧
      decode m.sample.2.queue + m.sample.2.pending = m.pending := by
  by_cases hidle : !m.statePending ∨ m.queue ≠ []
  · left
    unfold sample
    rw [h, if_neg (by decide), if_pos hidle]
  right
  have hqueue : m.queue = [] := by
    by_contra hne
    exact hidle (.inr hne)
  let dx := clampInt m.pendingDx (-256) 255
  let dy := clampInt m.pendingDy (-255) 256
  let dz := if m.intellimouse then clampInt m.pendingDz (-8) 7 else 0
  have hsent : m.sample.2 =
      { m with
        queue := m.packet dx dy m.hostButtons dz
        buttons := m.hostButtons &&& 0x07#8
        pendingDx := m.pendingDx - dx
        pendingDy := m.pendingDy - dy
        pendingDz := if m.intellimouse then m.pendingDz - dz else 0 } := by
    unfold sample
    rw [h, if_neg (by decide), if_neg hidle]
    simp only [queueMovement, hqueue]
    rfl
  have hz : -8 ≤ dz ∧ dz ≤ 7 := by
    simp only [dz]
    split_ifs
    · exact clampInt_mem _ (by decide)
    · decide
  have hsaid : decode (m.packet dx dy m.hostButtons dz) = m.onAxes (dx, dy, dz) :=
    decode_packet _ _ (clampInt_mem _ (by decide)) (clampInt_mem _ (by decide)) hz
  rw [hsent]
  refine ⟨hqueue, length_packet _ _ _ _ _, h, rfl, ?_⟩
  rw [hsaid]
  unfold pending onAxes
  cases m.intellimouse with
  | true => simp
  | false => simp

end Mouse

namespace Keyboard

variable (k : Keyboard)

/-- Latching a byte takes it off a queue. -/
theorem latchReady_mouse : ∃ q, q <:+ k.mouse.queue ∧
    k.latchReadyDeviceByte.mouse = { k.mouse with queue := q } := by
  unfold latchReadyDeviceByte
  split_ifs
  · exact ⟨_, List.suffix_refl _, rfl⟩
  · split
    · exact ⟨_, List.suffix_refl _, rfl⟩
    · split
      · next code rest _ hqueue =>
        refine ⟨rest, ?_, rfl⟩
        rw [hqueue]
        exact List.suffix_cons code rest
      · exact ⟨_, List.suffix_refl _, rfl⟩

theorem latchIfReady_mouse : ∃ q, q <:+ k.mouse.queue ∧
    k.latchIfReady.mouse = { k.mouse with queue := q } := by
  unfold latchIfReady
  split_ifs
  · exact k.latchReady_mouse
  · exact ⟨_, List.suffix_refl _, rfl⟩

theorem deviceDue_mouse : ∃ q, q <:+ k.mouse.queue ∧
    k.deviceDue.mouse = { k.mouse with queue := q } := by
  unfold deviceDue
  split_ifs
  · exact latchReady_mouse { k with deviceByteTicks := none, deviceByteReady := true }
  · exact ⟨_, List.suffix_refl _, rfl⟩

theorem schedule_mouse (ticks : ℕ) : (k.scheduleDeviceByteAt ticks).mouse = k.mouse := by
  unfold scheduleDeviceByteAt
  split_ifs <;> rfl

theorem kickMouseSample_mouse :
    k.kickMouseSample.mouse = k.mouse ∨ k.kickMouseSample.mouse = k.mouse.sample.2 := by
  rcases k.kickMouseSample_eq with heq | ⟨d, t, -, -, heq⟩
  · exact .inl (congrArg mouse heq)
  · exact .inr (congrArg mouse heq)

theorem sampleDue_mouse : k.sampleDue.mouse = k.mouse ∨ k.sampleDue.mouse = k.mouse.sample.2 := by
  unfold sampleDue
  split_ifs
  · exact .inr rfl
  · exact .inl rfl

end Keyboard

inductive Motion where
  | update (dx dy : ℤ) (buttons : Byte)
  | wheel (dz : ℤ)
  | tick (ticks : ℕ)
  | read (port prefixTicks : ℕ)

namespace Motion

def event : Motion → Event
  | .update dx dy buttons => .injectMouse dx dy buttons
  | .wheel dz => .injectMouseWheel dz
  | .tick ticks => .advance ticks
  | .read port prefixTicks => .readPort port prefixTicks

def fed : Motion → Displacement
  | .update dx dy _ => (dx, dy, 0)
  | .wheel dz => (0, 0, dz)
  | _ => 0

end Motion

namespace Logged

def move (s : Logged) (e : Motion) : Logged := s.step e.event

def Unsaturated (s : Logged) : Motion → Prop
  | .update dx dy _ => clampI32 (s.kbc.mouse.pendingDx + dx) = s.kbc.mouse.pendingDx + dx ∧
      clampI32 (s.kbc.mouse.pendingDy + dy) = s.kbc.mouse.pendingDy + dy ∧
      clampI32 s.kbc.mouse.pendingDz = s.kbc.mouse.pendingDz
  | .wheel dz => clampI32 s.kbc.mouse.pendingDx = s.kbc.mouse.pendingDx ∧
      clampI32 s.kbc.mouse.pendingDy = s.kbc.mouse.pendingDy ∧
      clampI32 (s.kbc.mouse.pendingDz + dz) = s.kbc.mouse.pendingDz + dz
  | _ => True

structure Moved (start : Logged) (motion : Displacement) (packets : List (List Byte))
    (s : Logged) : Prop where
  input : s.kbc.pendingInput = none
  reporting : s.kbc.mouse.reporting = true
  intellimouse : s.kbc.mouse.intellimouse = start.kbc.mouse.intellimouse
  placed : s.ledger.placed .mouse = start.ledger.placed .mouse ++ packets.flatten
  lengths : ∀ p ∈ packets, p.length = start.kbc.mouse.packetLength
  conserved : (packets.map Mouse.decode).sum + s.kbc.mouse.pending =
    start.kbc.mouse.pending + start.kbc.mouse.onAxes motion
  queue : s.kbc.mouse.queue <:+ packets.getLast?.getD start.kbc.mouse.queue

variable {start s s' : Logged} {motion : Displacement} {packets : List (List Byte)}

section

variable (h : Moved start motion packets s)
include h

/-- Bytes are taken off the queue. -/
theorem Moved.taken (hinput : s'.kbc.pendingInput = none)
    (hmouse : ∃ q, q <:+ s.kbc.mouse.queue ∧ s'.kbc.mouse = { s.kbc.mouse with queue := q })
    (hplaced : s'.ledger.placed .mouse = s.ledger.placed .mouse) : Moved start motion packets s' := by
  obtain ⟨q, hsuffix, hmouse⟩ := hmouse
  constructor
  · exact hinput
  · rw [hmouse]
    exact h.reporting
  · rw [hmouse]
    exact h.intellimouse
  · rw [hplaced]
    exact h.placed
  · exact h.lengths
  · rw [hmouse]
    exact h.conserved
  · rw [hmouse]
    exact hsuffix.trans h.queue

/-- A sample adds its packet to those queued. -/
theorem Moved.sampled (hinput : s'.kbc.pendingInput = none)
    (hmouse : s'.kbc.mouse = s.kbc.mouse ∨ s'.kbc.mouse = s.kbc.mouse.sample.2)
    (hplaced : s'.ledger.placed .mouse = s.ledger.placed .mouse ++
      s'.kbc.mouse.queue.drop s.kbc.mouse.queue.length) :
    ∃ packets', Moved start motion packets' s' := by
  have hkept (hsame : s'.kbc.mouse = s.kbc.mouse) : ∃ packets', Moved start motion packets' s' := by
    refine ⟨packets, h.taken hinput ⟨_, List.suffix_refl _, hsame⟩ ?_⟩
    rw [hplaced, hsame, List.drop_length, List.append_nil]
  rcases hmouse with hsame | hsample
  · exact hkept hsame
  rcases s.kbc.mouse.sample_cases h.reporting with hidle | ⟨hempty, hlength, hreports, hmode, hsum⟩
  · exact hkept (hsample.trans hidle)
  rw [← hsample] at hlength hreports hmode hsum
  refine ⟨packets ++ [s'.kbc.mouse.queue], hinput, hreports, hmode.trans h.intellimouse, ?_, ?_, ?_, ?_⟩
  · rw [hplaced, hempty, h.placed]
    simp
  · intro p hp
    rcases List.mem_append.mp hp with hold | hnew
    · exact h.lengths p hold
    · rw [List.mem_singleton.mp hnew, hlength]
      unfold Mouse.packetLength
      rw [h.intellimouse]
  · rw [List.map_append, List.sum_append, ← h.conserved, ← hsum]
    simp [add_assoc]
  · simp

/-- The host feeds the accumulators. -/
theorem Moved.fed {d : Displacement}
    (hmouse : s'.kbc.mouse.queue = s.kbc.mouse.queue ∧ s'.kbc.mouse.reporting = s.kbc.mouse.reporting ∧
      s'.kbc.mouse.intellimouse = s.kbc.mouse.intellimouse ∧
      s'.kbc.mouse.pending = s.kbc.mouse.pending + s.kbc.mouse.onAxes d)
    (hinput : s'.kbc.pendingInput = s.kbc.pendingInput) (hledger : s'.ledger = s.ledger) :
    Moved start (motion + d) packets s' := by
  obtain ⟨hqueue, hreports, hmode, hsum⟩ := hmouse
  have haxes (e : Displacement) : s.kbc.mouse.onAxes e = start.kbc.mouse.onAxes e := by
    unfold Mouse.onAxes
    rw [h.intellimouse]
  refine ⟨hinput.trans h.input, hreports.trans h.reporting, hmode.trans h.intellimouse, ?_,
    h.lengths, ?_, ?_⟩
  · rw [hledger]
    exact h.placed
  · rw [hsum, Mouse.onAxes_add, ← add_assoc, h.conserved, haxes, add_assoc]
  · rw [hqueue]
    exact h.queue

/-- What an injected update does before the mouse is sampled. -/
theorem Moved.injected {dx dy dz : ℤ} {buttons : Byte}
    (hx : clampI32 (s.kbc.mouse.pendingDx + dx) = s.kbc.mouse.pendingDx + dx)
    (hy : clampI32 (s.kbc.mouse.pendingDy + dy) = s.kbc.mouse.pendingDy + dy)
    (hz : clampI32 (s.kbc.mouse.pendingDz + dz) = s.kbc.mouse.pendingDz + dz) {e : Event}
    (he : s.step e = ⟨s.kbc.step e, s.ledger.feed s.kbc (s.kbc.step e)⟩) (hkick : s.kbc.step e =
      { s.kbc with mouse := s.kbc.mouse.hostUpdate dx dy dz buttons }.kickMouseSample) :
    ∃ packets', Moved start (motion + (dx, dy, dz)) packets' (s.step e) := by
  let fed : Keyboard := { s.kbc with mouse := s.kbc.mouse.hostUpdate dx dy dz buttons }
  have hfed : Moved start (motion + (dx, dy, dz)) packets ⟨fed, s.ledger⟩ := by
    exact h.fed ⟨rfl, rfl, rfl, s.kbc.mouse.pending_hostUpdate buttons hx hy hz⟩ rfl rfl
  rw [he, hkick]
  apply hfed.sampled
  · exact (Keyboard.takes_kickMouseSample fed).untimed.pendingInput.trans h.input
  · exact fed.kickMouseSample_mouse
  · rfl

end

/-- Passing time samples the mouse and takes bytes off its queue. -/
theorem Moved.advance (hk : s.kbc.Timed) (h : Moved start motion packets s) (ticks : ℕ) :
    ∃ packets', Moved start motion packets' (countdown.advance ticks s) := by
  have hlawful := countdown_lawful.and (Q := fun s => ∃ packets', Moved start motion packets' s) ?_ ?_
  · exact (hlawful.advance_keep ticks ⟨hk, packets, h⟩).2
  · rintro s n ⟨packets, h⟩
    exact ⟨packets, h.taken h.input ⟨_, List.suffix_refl _, rfl⟩ rfl⟩
  · rintro s ⟨packets, h⟩
    -- no input is under way
    have hidle : s.inputDue = s := inputDue_of_idle fun _ => h.input
    have hkbc : s.kbc.inputDue = s.kbc := congrArg Logged.kbc hidle
    have hledger : s.ledger.inputDue s.kbc = s.ledger := congrArg Logged.ledger hidle
    have hlatched : s.kbc.deviceDue.pendingInput = none := s.kbc.deviceDue_input.1.trans h.input
    have hdevice : Moved start motion packets ⟨s.kbc.deviceDue, s.ledger⟩ :=
      h.taken hlatched s.kbc.deviceDue_mouse rfl
    have hsampled : ∃ packets', Moved start motion packets' ⟨s.kbc.deviceDue.sampleDue,
        s.ledger.feed s.kbc.deviceDue s.kbc.deviceDue.sampleDue⟩ := by
      refine hdevice.sampled ?_ s.kbc.deviceDue.sampleDue_mouse rfl
      unfold Keyboard.sampleDue
      split_ifs
      · exact hlatched
      · exact hlatched
    obtain ⟨packets', hsampled⟩ := hsampled
    refine ⟨packets', hsampled.taken ?_ ⟨_, List.suffix_refl _, ?_⟩ ?_⟩
    · show s.kbc.fire.pendingInput = none
      unfold Keyboard.fire
      rw [hkbc]
      exact (Keyboard.takes_schedule _ 0).untimed.pendingInput.trans hsampled.input
    · show s.kbc.fire.mouse = _
      unfold Keyboard.fire
      rw [hkbc]
      exact Keyboard.schedule_mouse _ 0
    · show (s.ledger.fire s.kbc).placed .mouse = _
      unfold Ledger.fire
      rw [hkbc, hledger]

theorem Moved.move (hk : s.kbc.Timed) (h : Moved start motion packets s) (e : Motion)
    (hfits : s.Unsaturated e) : ∃ packets', Moved start (motion + e.fed) packets' (s.move e) := by
  cases e with
  | update dx dy buttons =>
    obtain ⟨hx, hy, hz⟩ := hfits
    exact h.injected hx hy (by rw [add_zero, hz]) rfl rfl
  | wheel dz =>
    obtain ⟨hx, hy, hz⟩ := hfits
    exact h.injected (by rw [add_zero, hx]) (by rw [add_zero, hy]) hz rfl rfl
  | tick ticks =>
    rw [show motion + (Motion.tick ticks).fed = motion from add_zero motion]
    exact h.advance hk ticks
  | read port ticks =>
    rw [show motion + (Motion.read port ticks).fed = motion from add_zero motion]
    refine ⟨packets, h.taken ?_ ?_ ?_⟩
    · show (s.kbc.readPortAt port ticks).2.pendingInput = none
      unfold Keyboard.readPortAt
      split_ifs
      · exact ((Keyboard.untimed_latchIfReady _).trans
          (Keyboard.takes_schedule _ ticks).untimed).pendingInput.trans h.input
      · exact h.input
      · exact h.input
    · show ∃ q, _ ∧ (s.kbc.readPortAt port ticks).2.mouse = _
      unfold Keyboard.readPortAt
      split_ifs
      · dsimp only
        rw [Keyboard.schedule_mouse]
        exact Keyboard.latchIfReady_mouse (Logged.taken s.kbc)
      · exact ⟨_, List.suffix_refl _, rfl⟩
      · exact ⟨_, List.suffix_refl _, rfl⟩
    · show (if port = 0x60 then s.ledger.read s.kbc _ else s.ledger).placed .mouse = _
      unfold Ledger.read
      split_ifs <;> rfl

def farRight : List Motion := [.update 300 (-20) 0, .read 0x60 0]

/-- Two bytes of a packet are read and the third is in the output buffer when the guest asks for the
command byte. -/
def asking : List Event :=
  [.setMouseReporting true, .injectMouse 5 0 0, .advance deviceByteDelay, .readPort 0x60 0,
    .advance deviceByteDelay, .readPort 0x60 0, .advance deviceByteDelay, .writePort 0x64 0x20 0]

def nudged : List Motion := [.update 7 0 0, .tick controllerInputTicks]

end Logged

end IzarraVM.Kbc
