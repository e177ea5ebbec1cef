import Mathlib.Algebra.Order.Ring.Rat
import Mathlib.Logic.Function.Basic
import Mathlib.Order.Monotone.Defs

/-! # Load average

`LAMetrics`, after `backend/LAMetrics.h`: a ring of samples of the idle counter and of the clock, which a timer rotates.
The counter and the clock are read one after the other, and both are words of 64 bits. The arithmetic on `double` is
exact arithmetic followed by a rounding.
-/

namespace UniEvent.LoadAverage

/-- `LA_INTERVALS` -/
abbrev laIntervals : ℕ := 10

structure TimeRow where
  idle : UInt64
  time : UInt64
deriving DecidableEq, Repr

/-- The data members of `LAMetrics`; `ti` is the current slot. -/
structure LAMetrics where
  times : Fin laIntervals → TimeRow
  ti : Fin laIntervals

/-- What one call reads: `get_metrics_idle_time()`, and after it `now()`. -/
structure Reading where
  idle : UInt64
  now : UInt64
deriving DecidableEq, Repr

def Reading.row (reading : Reading) : TimeRow := { idle := reading.idle, time := reading.now }

/-- A rounding to `double`: it keeps the order, and zero and one are numbers of the format. -/
structure Rounding where
  round : ℚ → ℚ
  mono : Monotone round
  zero : round 0 = 0
  one : round 1 = 1

namespace LAMetrics

/-- The constructor. -/
def create (reading : Reading) : LAMetrics := { times := fun _ => reading.row, ti := 0 }

variable (metrics : LAMetrics)

def nextIdx : Fin laIntervals := if metrics.ti = 9 then 0 else metrics.ti + 1

def handleTimer (reading : Reading) : LAMetrics :=
  { times := Function.update metrics.times metrics.nextIdx reading.row, ti := metrics.nextIdx }

/-- The local variable `idle` of `get`. -/
def idle (reading : Reading) : UInt64 := reading.idle - (metrics.times metrics.nextIdx).idle

/-- The local variable `total` of `get`. -/
def total (reading : Reading) : UInt64 := reading.now - (metrics.times metrics.nextIdx).time

def get (double : Rounding) (reading : Reading) : ℚ :=
  if metrics.total reading = 0 then 0
  else double.round (double.round (metrics.total reading - metrics.idle reading).toNat
    / double.round (metrics.total reading).toNat)

end LAMetrics

/-! ### Runs -/

/-- The idle counter as a function of the clock: it never shrinks, and grows no faster than the clock. -/
structure Counter where
  idle : ℕ → ℕ
  grows : ∀ time span, idle time ≤ idle (time + span)
  slow : ∀ time span, idle (time + span) ≤ idle time + span

/-- A call on the thread of the loop reads the idle counter and then the clock. The loop does not wait for events
meanwhile, so the counter stands still. -/
structure Call (counter : Counter) where
  asked : ℕ
  clocked : ℕ
  forward : asked ≤ clocked
  busy : counter.idle clocked = counter.idle asked
  clockFits : clocked < 2 ^ 64
  idleFits : counter.idle asked < 2 ^ 64

variable {counter : Counter}

def Call.reading (call : Call counter) : Reading :=
  { idle := .ofNat (counter.idle call.asked), now := .ofNat call.clocked }

/-- The calls after the construction. -/
inductive Op (counter : Counter) where
  | tick (call : Call counter)
  | get (call : Call counter)

def Op.call : Op counter → Call counter
  | .tick call => call
  | .get call => call

/-- The call of the timer, if it is one. -/
def Op.sample : Op counter → Option (Call counter)
  | .tick call => some call
  | .get _ => none

def step (metrics : LAMetrics) : Op counter → LAMetrics
  | .tick call => metrics.handleTimer call.reading
  | .get _ => metrics

/-- The object after its construction and the calls. -/
def run (created : Call counter) (ops : List (Op counter)) : LAMetrics := ops.foldl step (.create created.reading)

/-- The timer's calls. -/
def ticks (ops : List (Op counter)) : List (Call counter) := ops.filterMap Op.sample

/-- The call that took the sample so many ticks ago, where the construction took the first sample. -/
def sampleAgo? (created : Call counter) (ops : List (Op counter)) (ago : ℕ) : Option (Call counter) :=
  (created :: ticks ops).reverse[ago]?

/-- Each call begins when the one before has read the clock. -/
def InOrder (calls : List (Call counter)) : Prop :=
  calls.Pairwise fun earlier later => earlier.clocked ≤ later.asked

end UniEvent.LoadAverage
