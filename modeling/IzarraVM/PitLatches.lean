import IzarraVM.PitCanonical

/-! The canonical payload of the 8254 on the side of its ports. -/
namespace IzarraVM.Timer.Counter

variable {c d : Counter} {n : ℕ}

def portView (c : Counter) : Counter :=
  { c with
    latch := c.latch.map c.unreadBytes
    writeMsbNext := c.dualByte && c.writeMsbNext
    readMsbNext := c.dualByte && c.readMsbNext }

def withPorts (c : Counter) (latch : Option UInt16) (writeMsbNext readMsbNext : Bool) : Counter :=
  { c with latch, writeMsbNext, readMsbNext }

theorem portView_eq (c : Counter) : c.portView =
    c.withPorts (c.latch.map c.unreadBytes) (c.dualByte && c.writeMsbNext) (c.dualByte && c.readMsbNext) :=
  rfl

theorem byte_byte (value mask : UInt16) : value &&& mask &&& mask = value &&& mask := by
  rw [UInt16.and_assoc, UInt16.and_self]

theorem portView_flips (hrw : c.rw = .lsbThenMsb) :
    c.portView.writeMsbNext = c.writeMsbNext ∧ c.portView.readMsbNext = c.readMsbNext := by
  rw [portView, dualByte, hrw]
  exact ⟨rfl, rfl⟩

theorem unreadBytes_portView (c : Counter) : c.portView.unreadBytes = c.unreadBytes := by
  funext value
  unfold unreadBytes
  rw [show c.portView.rw = c.rw from rfl]
  cases hrw : c.rw with
  | lsb | msb => rfl
  | lsbThenMsb =>
    dsimp only
    rw [(portView_flips hrw).2]

/-- The bytes that are left to read are left as they are. -/
theorem unreadBytes_unreadBytes (c : Counter) (value : UInt16) :
    c.unreadBytes (c.unreadBytes value) = c.unreadBytes value := by
  unfold unreadBytes
  cases c.rw with
  | lsb => exact byte_byte value _
  | msb => exact byte_byte value _
  | lsbThenMsb =>
    dsimp only
    split_ifs
    · exact byte_byte value _
    · rfl

theorem portView_portView (c : Counter) : c.portView.portView = c.portView := by
  have hlatch : (c.latch.map c.unreadBytes).map c.portView.unreadBytes = c.latch.map c.unreadBytes := by
    rw [unreadBytes_portView]
    cases c.latch with
    | none => rfl
    | some value => exact congrArg some (c.unreadBytes_unreadBytes value)
  rw [portView_eq c.portView]
  change c.withPorts ((c.latch.map c.unreadBytes).map c.portView.unreadBytes)
    (c.dualByte && (c.dualByte && c.writeMsbNext)) (c.dualByte && (c.dualByte && c.readMsbNext)) = _
  rw [hlatch, Bool.and_self_left, Bool.and_self_left]
  rfl

section Ports

variable (c : Counter) (latch : Option UInt16) (w r : Bool)

@[simp] theorem withPorts_mode : (c.withPorts latch w r).mode = c.mode := rfl

@[simp] theorem withPorts_count : (c.withPorts latch w r).count = c.count := rfl

@[simp] theorem withPorts_out : (c.withPorts latch w r).out = c.out := rfl

@[simp] theorem withPorts_gate : (c.withPorts latch w r).gate = c.gate := rfl

@[simp] theorem withPorts_state : (c.withPorts latch w r).state = c.state := rfl

@[simp] theorem withPorts_dec : (c.withPorts latch w r).dec = c.dec := rfl

@[simp] theorem withPorts_squareStep : (c.withPorts latch w r).squareStep = c.squareStep := rfl

theorem stepTerminal_withPorts : (c.withPorts latch w r).stepTerminal =
    (c.stepTerminal.1.withPorts latch w r, c.stepTerminal.2) := by
  unfold stepTerminal
  dsimp only
  rw [withPorts_dec, withPorts_count, withPorts_out]
  split <;> rfl

theorem stepStrobe_withPorts : (c.withPorts latch w r).stepStrobe =
    (c.stepStrobe.1.withPorts latch w r, c.stepStrobe.2) := by
  unfold stepStrobe
  rw [withPorts_out]
  split <;> rfl

theorem stepCounting_withPorts : (c.withPorts latch w r).stepCounting =
    (c.stepCounting.1.withPorts latch w r, c.stepCounting.2) := by
  unfold stepCounting
  rw [withPorts_gate, withPorts_mode]
  split
  · rfl
  · split
    · exact c.stepTerminal_withPorts latch w r
    · exact c.stepTerminal_withPorts latch w r
    · unfold stepRate
      rw [withPorts_count, withPorts_dec, withPorts_out]
      split <;> rfl
    · unfold stepSquare
      rw [withPorts_count, withPorts_squareStep]
      split <;> rfl
    · exact c.stepStrobe_withPorts latch w r
    · exact c.stepStrobe_withPorts latch w r
    · rfl

/-- A clock does not look at the ports. -/
theorem step_withPorts : (c.withPorts latch w r).step = (c.step.1.withPorts latch w r, c.step.2) := by
  unfold step
  rw [withPorts_state]
  cases c.state with
  | inactive | waitGate | loadDelay => rfl
  | counting => exact c.stepCounting_withPorts latch w r

theorem setGate_withPorts (level : Bool) :
    (c.withPorts latch w r).setGate level = (c.setGate level).withPorts latch w r := by
  unfold setGate
  dsimp only
  rw [withPorts_gate, withPorts_mode]
  split
  · split <;> rfl
  · split <;> rfl

end Ports

/-- A clock leaves the ports as they are. -/
theorem step_ports (c : Counter) : c.step.1.rw = c.rw ∧ c.step.1.latch = c.latch ∧
    c.step.1.writeMsbNext = c.writeMsbNext ∧ c.step.1.readMsbNext = c.readMsbNext := by
  obtain ⟨_, _, _, _, hform, -⟩ := c.step_frame
  rw [hform]
  exact ⟨rfl, rfl, rfl, rfl⟩

theorem setGate_ports (c : Counter) (level : Bool) : (c.setGate level).rw = c.rw ∧
    (c.setGate level).latch = c.latch ∧ (c.setGate level).writeMsbNext = c.writeMsbNext ∧
    (c.setGate level).readMsbNext = c.readMsbNext := by
  obtain ⟨hform, -⟩ | ⟨-, hform⟩ | ⟨-, hform⟩ | ⟨-, -, hform⟩ | ⟨-, hform⟩ := c.setGate_cases level
  all_goals
    rw [hform]
    exact ⟨rfl, rfl, rfl, rfl⟩

/-- What leaves the ports of a counter leaves its view of them. -/
theorem portView_of_ports (hports : d.rw = c.rw ∧ d.latch = c.latch ∧
      d.writeMsbNext = c.writeMsbNext ∧ d.readMsbNext = c.readMsbNext) :
    d.portView = d.withPorts (c.latch.map c.unreadBytes) (c.dualByte && c.writeMsbNext)
      (c.dualByte && c.readMsbNext) := by
  obtain ⟨hrw, hlatch, hwrite, hread⟩ := hports
  have hunread : d.unreadBytes = c.unreadBytes := by
    funext value
    rw [unreadBytes, unreadBytes, hrw, hread]
  rw [portView_eq, hunread, hlatch, hwrite, hread, dualByte, hrw]
  rfl

variable (c)

theorem step_portView : c.portView.step = (c.step.1.portView, c.step.2) := by
  rw [portView_of_ports c.step_ports, portView_eq, step_withPorts]

theorem setGate_portView (level : Bool) :
    c.portView.setGate level = (c.setGate level).portView := by
  rw [portView_of_ports (c.setGate_ports level), portView_eq, setGate_withPorts]

theorem latchCount_portView (n : ℕ) :
    (c.portView.latchCount n).portView = (c.latchCount n).portView := by
  unfold latchCount
  by_cases hlatch : c.latch = none
  · have hlatch' : c.portView.latch = none := by rw [portView, hlatch]; rfl
    rw [if_pos hlatch, if_pos hlatch']
    change { c.portView.portView with latch := some (c.portView.unreadBytes (c.liveCount n)) } =
      { c.portView with latch := some (c.unreadBytes (c.liveCount n)) }
    rw [portView_portView, unreadBytes_portView]
  · have hlatch' : ¬c.portView.latch = none := by
      rw [portView]
      exact fun h => hlatch (Option.map_eq_none_iff.mp h)
    rw [if_neg hlatch, if_neg hlatch', portView_portView]

theorem latchStatus_portView (n : ℕ) : c.portView.latchStatus n = (c.latchStatus n).portView := by
  unfold latchStatus
  by_cases hlatch : c.statusLatch = none
  · rw [if_pos hlatch, if_pos (show c.portView.statusLatch = none from hlatch)]
    rfl
  · rw [if_neg hlatch, if_neg (show ¬c.portView.statusLatch = none from hlatch)]

theorem writeControl_portView (value : UInt8) (n : ℕ) :
    (c.portView.writeControl value n).portView = (c.writeControl value n).portView := by
  unfold writeControl
  dsimp only
  split_ifs with hlatch
  · exact c.latchCount_portView n
  all_goals rfl

theorem writeCount_portView (value : UInt8) :
    (c.portView.writeCount value).portView = (c.writeCount value).portView := by
  unfold writeCount
  rw [show c.portView.rw = c.rw from rfl]
  cases hrw : c.rw with
  | lsb => exact (c.setLow value).arm.portView_portView
  | msb => exact (c.setHigh value).arm.portView_portView
  | lsbThenMsb =>
    dsimp only
    rw [(portView_flips hrw).1]
    by_cases hfirst : c.writeMsbNext = false
    · have hbyte : ({ c.portView.setLow value with writeMsbNext := true }).portView =
          ({ c.setLow value with writeMsbNext := true }).portView := by
        change { (c.setLow value).portView.portView with writeMsbNext := c.dualByte && true } =
          { (c.setLow value).portView with writeMsbNext := c.dualByte && true }
        rw [portView_portView]
      rw [if_pos hfirst, if_pos hfirst]
      by_cases hmode : c.mode = 0
      · rw [if_pos (show (c.portView.setLow value).mode = 0 from hmode),
          if_pos (show (c.setLow value).mode = 0 from hmode)]
        exact congrArg (fun d : Counter => { d with out := false, state := .inactive }) hbyte
      · rw [if_neg (show ¬(c.portView.setLow value).mode = 0 from hmode),
          if_neg (show ¬(c.setLow value).mode = 0 from hmode)]
        exact hbyte
    · rw [if_neg hfirst, if_neg hfirst]
      change ({ (c.setHigh value).arm.portView.portView with writeMsbNext := c.dualByte && false }) =
        { (c.setHigh value).arm.portView with writeMsbNext := c.dualByte && false }
      rw [portView_portView]

theorem high_shift (value : UInt16) : (value &&& 0xff00) >>> 8 = value >>> 8 := by
  apply UInt16.toNat_inj.mp
  have hlt := value.toNat_lt
  have hbyte : value.toNat >>> 8 < 2 ^ 8 := by
    rw [Nat.shiftRight_eq_div_pow]
    omega
  rw [UInt16.toNat_shiftRight, UInt16.toNat_shiftRight, UInt16.toNat_and]
  change (value.toNat &&& 0xff00) >>> 8 = value.toNat >>> 8
  rw [Nat.shiftRight_and_distrib]
  exact Nat.and_two_pow_sub_one_of_lt_two_pow hbyte

variable {c}

section Reads

variable (hstatus : c.statusLatch = none)

include hstatus

theorem read_lsb (hrw : c.rw = .lsb) :
    c.read n = ((c.latch.getD (c.liveCount n) &&& 0xff).toUInt8, { c with latch := none }) := by
  rw [read, hstatus, hrw]

theorem read_msb (hrw : c.rw = .msb) :
    c.read n = ((c.latch.getD (c.liveCount n) >>> 8).toUInt8, { c with latch := none }) := by
  rw [read, hstatus, hrw]

theorem read_first (hrw : c.rw = .lsbThenMsb) (hnext : c.readMsbNext = false) : c.read n =
    ((c.latch.getD (c.liveCount n) &&& 0xff).toUInt8, { c with readMsbNext := true }) := by
  rw [read, hstatus, hrw, hnext]
  rfl

theorem read_second (hrw : c.rw = .lsbThenMsb) (hnext : c.readMsbNext = true) : c.read n =
    ((c.latch.getD (c.liveCount n) >>> 8).toUInt8, { c with readMsbNext := false, latch := none }) := by
  rw [read, hstatus, hrw, hnext]
  rfl

end Reads

/-- Of a counter whose next byte is the first of two, the view keeps all. -/
theorem portView_of_whole (hrw : c.rw = .lsbThenMsb) (hnext : c.readMsbNext = false) :
    c.portView = c := by
  have hwhole : c.unreadBytes = id := by
    funext value
    rw [unreadBytes, hrw, hnext]
    rfl
  obtain ⟨hwrite, hread⟩ := portView_flips hrw
  rw [portView_eq, hwhole, Option.map_id]
  change c.withPorts c.latch c.portView.writeMsbNext c.portView.readMsbNext = c
  rw [hwrite, hread]
  rfl

/-- A read returns a byte that is left to read. -/
theorem read_portView (c : Counter) (n : ℕ) :
    (c.portView.read n).1 = (c.read n).1 ∧ (c.portView.read n).2.portView = (c.read n).2.portView := by
  cases hstatus : c.statusLatch with
  | some status =>
    rw [read, read, show c.portView.statusLatch = c.statusLatch from rfl, hstatus]
    exact ⟨rfl, congrArg (fun d : Counter => { d with statusLatch := none }) c.portView_portView⟩
  | none =>
    have hstatus' : c.portView.statusLatch = none := hstatus
    have hdone : ({ c.portView with latch := none }).portView = ({ c with latch := none }).portView :=
      congrArg (fun d : Counter => { d with latch := none }) c.portView_portView
    -- the latched value, or the live one, as far as the byte goes
    have hbyte {f : UInt16 → UInt8} (hf : ∀ value, f (c.unreadBytes value) = f value) :
        f (c.portView.latch.getD (c.portView.liveCount n)) = f (c.latch.getD (c.liveCount n)) := by
      change f ((c.latch.map c.unreadBytes).getD (c.liveCount n)) = _
      cases c.latch with
      | none => rfl
      | some value => exact hf value
    cases hrw : c.rw with
    | lsb =>
      rw [read_lsb hstatus hrw, read_lsb hstatus' hrw]
      refine ⟨hbyte (f := fun v => (v &&& 0xff).toUInt8) fun value => ?_, hdone⟩
      rw [unreadBytes, hrw]
      exact congrArg UInt16.toUInt8 (byte_byte value 0xff)
    | msb =>
      rw [read_msb hstatus hrw, read_msb hstatus' hrw]
      refine ⟨hbyte (f := fun v => (v >>> 8).toUInt8) fun value => ?_, hdone⟩
      rw [unreadBytes, hrw]
      exact congrArg UInt16.toUInt8 (high_shift value)
    | lsbThenMsb =>
      have hflip := (portView_flips hrw).2
      cases hnext : c.readMsbNext with
      | false =>
        rw [read_first hstatus hrw hnext, read_first hstatus' hrw (hflip.trans hnext)]
        refine ⟨hbyte (f := fun v => (v &&& 0xff).toUInt8) fun value => ?_, ?_⟩
        · rw [unreadBytes, hrw, hnext]
          rfl
        · rw [portView_of_whole hrw hnext]
      | true =>
        rw [read_second hstatus hrw hnext, read_second hstatus' hrw (hflip.trans hnext)]
        refine ⟨hbyte (f := fun v => (v >>> 8).toUInt8) fun value => ?_, ?_⟩
        · rw [unreadBytes, hrw, hnext]
          exact congrArg UInt16.toUInt8 (high_shift value)
        · exact congrArg (fun d : Counter => { d with readMsbNext := c.dualByte && false, latch := none })
            c.portView_portView

end IzarraVM.Timer.Counter
