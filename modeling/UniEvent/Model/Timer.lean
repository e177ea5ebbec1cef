import Mathlib.Algebra.Ring.Nat
import Mathlib.Tactic.Common

/-! # The timer

`Timer`, after `Timer.cc`, on a backend timer that behaves as libuv's. A timer that is paused is stopped, and what
was left of its time is kept in `_paused_due_in`; the greatest value stands for a timer that is not paused.

The loop keeps a time of its own, which `update_time` takes from the clock. What a callback does are operations that
follow the expiry.
-/

namespace UniEvent

/-- `uv_timer_t` -/
structure UvTimer where
  active : Bool := false
  /-- `timer_cb` is set. -/
  callback : Bool := false
  timeout : UInt64 := 0
  rpt : UInt64 := 0
deriving DecidableEq, Repr

namespace UvTimer

def greatest : UInt64 := 18446744073709551615

/-- `uv_timer_start`; the sum must not wrap around -/
def start (time initial rpt : UInt64) (_ : UvTimer) : UvTimer where
  active := true
  callback := true
  timeout := if time + initial < initial then greatest else time + initial
  rpt

def stop (u : UvTimer) : UvTimer := { u with active := false }

/-- `uv_timer_again`, and whether it has succeeded -/
def again (time : UInt64) (u : UvTimer) : Bool × UvTimer :=
  if u.callback = false then (false, u)
  else if u.rpt ≠ 0 then (true, u.stop.start time u.rpt u.rpt)
  else (true, u)

def dueIn (time : UInt64) (u : UvTimer) : UInt64 := if u.timeout ≤ time then 0 else u.timeout - time

/-- `uv__run_timers`, for this timer -/
def expire (time : UInt64) (u : UvTimer) : UvTimer :=
  if u.active = true ∧ u.timeout ≤ time then (u.stop.again time).2 else u

end UvTimer

/-- A timer and the time of its loop. -/
structure Timer where
  impl : UvTimer := {}
  pausedDueIn : UInt64 := UvTimer.greatest
  time : UInt64
  clock : UInt64
deriving DecidableEq, Repr

namespace Timer

inductive Errc where
  | invalidArgument
deriving DecidableEq, Repr

def updateTime (t : Timer) : Timer := { t with time := t.clock }

def active (t : Timer) : Bool := t.impl.active

def rpt (t : Timer) : UInt64 := t.impl.rpt

def dueIn (t : Timer) : UInt64 := t.impl.dueIn t.time

def start (rpt initial : UInt64) (t : Timer) : Timer :=
  let t := t.updateTime
  { t with impl := t.impl.start t.time initial rpt }

def once (initial : UInt64) (t : Timer) : Timer := t.start 0 initial

def stop (t : Timer) : Timer := { t with impl := t.impl.stop, pausedDueIn := UvTimer.greatest }

def pause (t : Timer) : Timer :=
  if t.active = false then t
  else
    let t := t.updateTime
    { t with pausedDueIn := t.dueIn, impl := t.impl.stop }

def again (t : Timer) : Option Errc × Timer :=
  let t := t.updateTime
  match t.impl.again t.time with
  | (true, impl) => (none, { t with impl := impl })
  | (false, impl) => (some .invalidArgument, { t with impl := impl })

def resume (t : Timer) : Option Errc × Timer :=
  if t.active = true ∨ t.pausedDueIn = UvTimer.greatest then (some .invalidArgument, t)
  else
    let t := t.updateTime
    let t := if t.rpt ≠ 0 then t.start t.rpt t.pausedDueIn else t.once t.pausedDueIn
    (none, { t with pausedDueIn := UvTimer.greatest })

def setRpt (rpt : UInt64) (t : Timer) : Timer := { t with impl := { t.impl with rpt := rpt } }

def reset (t : Timer) : Timer := { t with impl := t.impl.stop }

/-- What it does to the callbacks is left out. -/
def clear (t : Timer) : Timer := { t with impl := t.impl.stop }

/-! ### Runs -/

inductive Op where
  | start (rpt initial : UInt64)
  | once (initial : UInt64)
  | again
  | stop
  | pause
  | resume
  | setRpt (rpt : UInt64)
  | reset
  | clear
  /-- The loop runs the timer if it is due. -/
  | expire
  /-- The loop takes the time. -/
  | update
  /-- Time passes. -/
  | tick (clock : UInt64)
deriving DecidableEq, Repr

def perform (op : Op) (t : Timer) : Timer :=
  match op with
  | .start rpt initial => t.start rpt initial
  | .once initial => t.once initial
  | .again => t.again.2
  | .stop => t.stop
  | .pause => t.pause
  | .resume => t.resume.2
  | .setRpt rpt => t.setRpt rpt
  | .reset => t.reset
  | .clear => t.clear
  | .expire => { t with impl := t.impl.expire t.time }
  | .update => t.updateTime
  | .tick clock => { t with clock := max t.clock clock }

/-- What is left of a pause, by the latest operation that affected the timer. -/
def paused (op : Op) (t : Timer) (before : Option UInt64) : Option UInt64 :=
  match op with
  | .pause => if t.active = true then some (t.impl.dueIn t.clock) else before
  | .resume => if t.resume.1 = none then none else before
  | .again => if t.again.1 = none then none else before
  | .start _ _ | .once _ | .stop | .reset | .clear => none
  | .setRpt _ | .expire | .update | .tick _ => before

/-- A timer, and whether it is paused. -/
structure Watched where
  timer : Timer
  paused : Option UInt64 := none
deriving DecidableEq, Repr

def Watched.step (s : Watched) (op : Op) : Watched := ⟨s.timer.perform op, s.timer.paused op s.paused⟩

def run (ops : List Op) (s : Watched) : Watched := ops.foldl Watched.step s

def initial (clock : UInt64) : Watched := ⟨{ time := clock, clock := clock }, none⟩

end Timer

end UniEvent
