import IzarraVM.ClockTrace

/-! The 8254 interval timer (`pit.rs`): the modes clock by clock, and their closed forms. -/
namespace IzarraVM.Timer

inductive RwMode
  | lsb
  | msb
  | lsbThenMsb
  deriving DecidableEq

inductive CounterState
  | inactive
  | loadDelay
  | counting
  | waitGate
  deriving DecidableEq

structure Counter where
  mode : ℕ
  rw : RwMode
  bcd : Bool
  count : UInt32
  reload : UInt16
  out : Bool
  gate : Bool
  state : CounterState
  nullCount : Bool
  latch : Option UInt16
  statusLatch : Option UInt8
  writeMsbNext : Bool
  readMsbNext : Bool
  deriving DecidableEq

inductive BulkDecline
  | bcd
  | illegalReload
  | spanTooWide
  deriving DecidableEq

def wrap32 (value amount : ℕ) : ℕ := (value + 2 ^ 64 - amount) % 2 ^ 64 % 2 ^ 32

namespace Counter

def powerOn : Counter where
  mode := 0
  rw := .lsb
  bcd := false
  count := 0
  reload := 0
  out := false
  gate := true
  state := .inactive
  nullCount := false
  latch := none
  statusLatch := none
  writeMsbNext := false
  readMsbNext := false

variable (c : Counter)

def effectiveReload : UInt32 := if c.reload = 0 then 0x10000 else c.reload.toUInt32

def borrow : List UInt32 → List UInt32
  | [] => []
  | d :: ds => if 0 < d then (d - 1) :: ds else 9 :: borrow ds

def bcdDecOnce (result : UInt32) : UInt32 :=
  if result = 0 then 0x9999
  else
    (borrow [result &&& 0xF, (result >>> 4) &&& 0xF, (result >>> 8) &&& 0xF,
      (result >>> 12) &&& 0xF]).foldr (fun d high => d ||| (high <<< 4)) 0

def bcdDec (value : UInt32) (amount : ℕ) : UInt32 := Nat.repeat bcdDecOnce amount (value &&& 0xFFFF)

def dec (value : UInt32) (amount : ℕ) : UInt32 :=
  if c.bcd then bcdDec value amount else value - UInt32.ofNat amount

def stepTerminal : Counter × Bool :=
  let count := c.dec c.count 1
  if count = 0 ∧ c.out = false then
    ({ c with count, out := true, state := if c.mode ≠ 0 then .inactive else c.state }, true)
  else ({ c with count }, false)

def stepRate : Counter × Bool :=
  if c.count ≤ 1 then ({ c with count := c.effectiveReload, out := true }, !c.out)
  else
    let count := c.dec c.count 1
    ({ c with count, out := if count = 1 then false else c.out }, false)

def squareStep : ℕ := if c.count &&& 1 = 1 then if c.out then 1 else 3 else 2

def stepSquare : Counter × Bool :=
  if c.count ≤ UInt32.ofNat c.squareStep then
    ({ c with count := c.effectiveReload, out := !c.out }, !c.out)
  else ({ c with count := c.dec c.count c.squareStep }, false)

def stepStrobe : Counter × Bool :=
  if c.out then
    let count := c.dec c.count 1
    ({ c with count, out := if count = 0 then false else c.out }, false)
  else ({ c with out := true, state := .inactive }, true)

def pause : Counter := { c with out := if c.mode = 2 ∨ c.mode = 3 then true else c.out }

def stepCounting : Counter × Bool :=
  if c.gate = false then (c.pause, false)
  else match c.mode with
    | 0 | 1 => c.stepTerminal
    | 2 => c.stepRate
    | 3 => c.stepSquare
    | 4 | 5 => c.stepStrobe
    | _ => (c, false)

def load : Counter :=
  { c with count := c.effectiveReload, nullCount := false, state := .counting }

def step : Counter × Bool :=
  match c.state with
  | .inactive => (c, false)
  | .waitGate => (c, false)
  | .loadDelay => (c.load, false)
  | .counting => c.stepCounting

def mode3Half (value : ℕ) (out : Bool) : ℕ :=
  if value % 2 = 0 ∨ out = false then max (value / 2) 1 else (value + 1) / 2

def mode3ValueInHalf (value : ℕ) (out : Bool) (k : ℕ) : ℕ :=
  if k = 0 then value
  else if value % 2 = 1 then
    if out then value + 1 - 2 * k else value - 1 - 2 * k
  else value - 2 * k

def setCount (value : ℕ) : Counter := { c with count := UInt32.ofNat value }

def bulkDecline : Option BulkDecline :=
  if c.bcd then some .bcd
  else if (c.state = .loadDelay ∨ c.state = .counting) ∧ (c.mode = 2 ∨ c.mode = 3) ∧
      c.effectiveReload ≤ 1 then some .illegalReload
  else none

variable (clocks : ℕ)

def advanceTerminal : Counter × ℕ :=
  let v := c.count.toNat
  if c.out = false ∧ v ≠ 0 ∧ v ≤ clocks then
    if c.mode ≠ 0 then ({ c with out := true, state := .inactive, count := 0 }, 1)
    else ({ c with out := true }.setCount (wrap32 v clocks), 1)
  else (c.setCount (wrap32 v clocks), 0)

def advanceRate : Counter × ℕ :=
  let v := c.count.toNat
  let r := c.effectiveReload.toNat
  let firstReload := if 2 ≤ v then v else 1
  let roseFirst := if 2 ≤ v then true else !c.out
  if clocks < firstReload then
    ({ c with out := if v - clocks = 1 then false else c.out }.setCount (v - clocks), 0)
  else
    let past := clocks - firstReload
    let phase := past % r
    ({ c with out := decide (phase ≠ r - 1) }.setCount (r - phase), roseFirst.toNat + past / r)

def advanceSquare : Counter × ℕ :=
  let v := c.count.toNat
  let r := c.effectiveReload.toNat
  let toToggle := mode3Half v c.out
  if clocks < toToggle then (c.setCount (mode3ValueInHalf v c.out clocks), 0)
  else
    let level0 := !c.out
    let half0 := mode3Half r level0
    let rem := clocks - toToggle
    let phase := rem % r
    (if phase < half0 then { c with out := level0 }.setCount (mode3ValueInHalf r level0 phase)
      else { c with out := !level0 }.setCount (mode3ValueInHalf r (!level0) (phase - half0)),
      if level0 then 1 + rem / r
      else if half0 ≤ rem then (rem - half0) / r + 1
      else 0)

def advanceStrobe : Counter × ℕ :=
  let v := c.count.toNat
  if c.out = false then ({ c with out := true, state := .inactive }, 1)
  else if v = 0 then (c.setCount (wrap32 v clocks), 0)
  else if clocks ≤ v then
    ({ c with out := if clocks = v then false else c.out }.setCount (v - clocks), 0)
  else ({ c with count := 0, state := .inactive }, 1)

def advanceCounting : Counter × ℕ :=
  if clocks = 0 then (c, 0)
  else if c.gate = false then (c.pause, 0)
  else match c.mode with
    | 0 | 1 => c.advanceTerminal clocks
    | 2 => c.advanceRate clocks
    | 3 => c.advanceSquare clocks
    | 4 | 5 => c.advanceStrobe clocks
    | _ => (c, 0)

def advance : Counter × ℕ :=
  if clocks = 0 then (c, 0)
  else match c.state with
    | .inactive => (c, 0)
    | .waitGate => (c, 0)
    | .loadDelay => c.load.advanceCounting (clocks - 1)
    | .counting => c.advanceCounting clocks

/-- The loop over the periods of mode 2. Every turn moves `high` on, so the fuel is never used up.
-/
def rateTransitions (r clocks offset : ℕ) : ℕ → Bool → ℕ → ℕ → List (ℕ × Bool)
  | 0, _, _, _ => []
  | fuel + 1, level, low, high =>
    if 1 ≤ low ∧ clocks < low then []
    else
      let fall := if 1 ≤ low ∧ level then [(offset + low, false)] else []
      let level := if 1 ≤ low then false else level
      if clocks < high then fall
      else
        let rise := if level then [] else [(offset + high, true)]
        fall ++ rise ++ rateTransitions r clocks offset fuel true (high + r - 1) (high + r)

def squareTransitions (r clocks offset : ℕ) : ℕ → Bool → ℕ → List (ℕ × Bool)
  | 0, _, _ => []
  | fuel + 1, level, tick =>
    if tick ≤ clocks then
      (offset + tick, !level) ::
        squareTransitions r clocks offset fuel (!level) (tick + mode3Half r (!level))
    else []

def countingTransitions (v clocks offset : ℕ) : List (ℕ × Bool) :=
  if clocks = 0 then []
  else if c.gate = false then
    if (c.mode = 2 ∨ c.mode = 3) ∧ c.out = false then [(offset + 1, true)] else []
  else
    let r := c.effectiveReload.toNat
    match c.mode with
    | 0 | 1 => if c.out = false ∧ v ≠ 0 ∧ v ≤ clocks then [(offset + v, true)] else []
    | 2 =>
      if 2 ≤ v then rateTransitions r clocks offset (clocks + 1) c.out (v - 1) v
      else rateTransitions r clocks offset (clocks + 1) c.out 0 1
    | 3 => squareTransitions r clocks offset (clocks + 1) c.out (mode3Half v c.out)
    | 4 | 5 =>
      if c.out = false then [(offset + 1, true)]
      else if v ≠ 0 then
        (if v ≤ clocks then [(offset + v, false)] else []) ++
          if v < clocks then [(offset + v + 1, true)] else []
      else []
    | _ => []

def outTransitionsIn : List (ℕ × Bool) :=
  if clocks = 0 then []
  else match c.state with
    | .inactive => []
    | .waitGate => []
    | .loadDelay => c.countingTransitions c.effectiveReload.toNat (clocks - 1) 1
    | .counting => c.countingTransitions c.count.toNat clocks 0

end Counter

structure Pit where
  counters : Vector Counter 3
  deriving DecidableEq

def Pit.first (pit : Pit) : Counter := pit.counters[0]

structure Advanced where
  pit : Pit
  edges : UInt32
  transitions : List (ℕ × Bool)
  deriving DecidableEq

namespace Pit

variable (pit : Pit)

variable (clocks : ℕ)

def bulkDecline : Option BulkDecline :=
  if 2 ^ 32 ≤ clocks then some .spanTooWide
  else pit.counters.toList.findSome? Counter.bulkDecline

def channelOut (channel : ℕ) : Bool := ((pit.counters[channel]?).map (·.out)).getD false

def step : Pit := ⟨pit.counters.map fun c : Counter => c.step.1⟩

variable (watchChannel : Option ℕ)

def bulkAdvance : Advanced where
  transitions := ((watchChannel.bind (pit.counters[·]?)).map (·.outTransitionsIn clocks)).getD []
  pit := ⟨pit.counters.map fun c : Counter => (c.advance clocks).1⟩
  edges :=
    let edges := (pit.first.advance clocks).2
    if edges < 2 ^ 32 then UInt32.ofNat edges else UInt32.ofNat (2 ^ 32 - 1)

structure Looping where
  pit : Pit
  edges : UInt32
  watched : Option Bool
  transitions : List (ℕ × Bool)

def Looping.observe (s : Looping) (watchChannel : Option ℕ) (tick : ℕ) : Looping :=
  match watchChannel with
  | none => s
  | some channel =>
    let level := s.pit.channelOut channel
    if some level ≠ s.watched then
      { s with watched := some level, transitions := s.transitions ++ [(tick, level)] }
    else s

def Looping.tick (s : Looping) (tick : ℕ) : Looping :=
  { s with
    pit := s.pit.step
    edges := if s.pit.first.step.2 then s.edges + 1 else s.edges }.observe watchChannel tick

def loopAdvance : Advanced :=
  let s := (List.range' 1 clocks).foldl (Looping.tick watchChannel)
    { pit, edges := 0, watched := watchChannel.map pit.channelOut, transitions := [] }
  ⟨s.pit, s.edges, s.transitions⟩

def tickWithObserver (bulk : Bool) : Advanced :=
  if clocks = 0 then ⟨pit, 0, []⟩
  else if bulk ∧ pit.bulkDecline clocks = none then pit.bulkAdvance clocks watchChannel
  else pit.loopAdvance clocks watchChannel

end Pit

end IzarraVM.Timer
