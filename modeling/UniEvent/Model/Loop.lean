import Mathlib.Data.Nat.Notation

/-! # The event loop

`LoopImpl::run` over `UVLoop::_run`, after `LoopImpl.h`, `Backend.cc` and `UVLoop.h`. No exception may go through libuv:
every callback is called by `ltry`, which keeps its exception and stops the loop, and `run` throws it when libuv is
done. What libuv calls during `uv_run` is scripted, and so is the user's code. The trace is ghost, newest event first.
-/

namespace UniEvent.Loop

inductive Exception where
  | user (id : ℕ)
  /-- "Loop::run recursion" -/
  | recursion
deriving DecidableEq, Repr

mutual

/-- The user's code, up to where it returns or throws. -/
inductive Code where
  | ret
  | throw (id : ℕ)
  /-- `Loop::stop` -/
  | stop (rest : Code)
  /-- `Loop::run` in any mode, with what libuv does meanwhile -/
  | run (poll : Poll) (rest : Code)
  /-- A request is completed by the call that makes it, such as `UVStream::write`, and its callback is called. -/
  | complete (callback rest : Code)
  /-- `try { .. } catch (...) {}` -/
  | attempt (body rest : Code)

/-- What `uv_run` does. -/
inductive Poll where
  /-- Nothing is left to wait for, or the mode asks for no more. -/
  | done
  | event (callback : Code) (rest : Poll)
  /-- An iteration ends, where the stop flag is looked at. -/
  | turn (rest : Poll)

end

inductive Event where
  | enter
  /-- One more iteration starts. -/
  | iterate
  | stop
  /-- A callback is over, with the exception that has left it. -/
  | callbackEnded (exc : Option Exception)
  /-- `Loop::run` is over, with the exception that its caller gets. -/
  | runEnded (exc : Option Exception)
deriving DecidableEq, Repr

structure World where
  running : Bool := false
  stopFlag : Bool := false
  exception : Option Exception := none
  trace : List Event := []
deriving DecidableEq, Repr

namespace World

variable (s : World)

def stop : World := { s with stopFlag := true, trace := .stop :: s.trace }

def captureException (exc : Exception) : World := { s with stopFlag := true, exception := some exc }

/-- The start of `UVLoop::_run` -/
def enter : World := { s with running := true, stopFlag := false, trace := .enter :: s.trace }

def iterate : World := { s with trace := .iterate :: s.trace }

/-- `LoopImpl::run` after `uv_run`, which has cleared the stop flag. -/
def leave : Option Exception × World :=
  match s.exception with
  | none => (none, { s with running := false, stopFlag := false })
  | some exc => (some exc, { s with running := false, stopFlag := false, exception := none })

end World

/-- Ghost: how a call has ended. -/
def record (event : Option Exception → Event) : Option Exception × World → Option Exception × World
  | (exc, s) => (exc, { s with trace := event exc :: s.trace })

/-- `LoopImpl::ltry` of a call with the exception that has left it. -/
def ltry : Option Exception × World → World
  | (none, s) => s
  | (some exc, s) => s.captureException exc

mutual

/-- The exception that leaves the code, if any. -/
def Code.exec : Code → World → Option Exception × World
  | .ret, s => (none, s)
  | .throw id, s => (some (.user id), s)
  | .stop rest, s => rest.exec s.stop
  | .run poll rest, s =>
    if s.running = true then (some .recursion, s)
    else
      match record .runEnded (poll.exec s.enter).leave with
      | (none, s) => rest.exec s
      | (some exc, s) => (some exc, s)
  | .complete callback rest, s => rest.exec (ltry (record .callbackEnded (callback.exec s)))
  | .attempt body rest, s => rest.exec (body.exec s).2

def Poll.exec : Poll → World → World
  | .done, s => s
  | .event callback rest, s => rest.exec (ltry (record .callbackEnded (callback.exec s)))
  | .turn rest, s => if s.stopFlag = true then s else rest.exec s.iterate

end

end UniEvent.Loop
