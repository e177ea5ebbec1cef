import Mathlib.Data.Nat.Notation
import Mathlib.Logic.Function.Basic
import Mathlib.Tactic.TypeStar

/-! # Works of a loop

`Work`, after `Work.cc`, over the backend's `UVWork`, after `UVWork.h`, with the list of works of the loop. What the
backend answers to `queue()` and to `destroy()` are inputs. The callback is the last thing that `handle_after_work`
does: it is a frame in which any calls may come, until it returns or throws. An object without callback and listener
throws at once, which is a frame in which nothing comes.
-/

namespace UniEvent.WorkQueue

inductive ErrorCode where
  | operationInProgress
  | operationCanceled
  /-- What the backend reports. -/
  | backend (code : ℕ)
deriving DecidableEq, Repr

structure UVWork where
  active : Bool := false
deriving DecidableEq, Repr

namespace UVWork

/-- `reply` is the error of `uv_queue_work`. -/
def queue (reply : Option ErrorCode) (impl : UVWork) : Option ErrorCode × UVWork :=
  match reply with
  | none => (none, { active := true })
  | some err => (some err, impl)

/-- `canceled` says that `uv_cancel` has succeeded. -/
def destroy (canceled : Bool) (impl : UVWork) : Bool := if impl.active then canceled else true

end UVWork

/-- The data members of `Work`. -/
structure Work where
  impl : Option UVWork := none
  active : Bool := false
deriving DecidableEq, Repr

/-- A call of the after work callback. -/
structure Frame (ι : Type*) where
  work : ι
  err : Option ErrorCode
deriving DecidableEq, Repr

/-- A loop and the works that use it. -/
structure State (ι : Type*) where
  /-- `Loop::_works` -/
  works : List ι := []
  work : ι → Work := fun _ => {}
  /-- The innermost first. -/
  frames : List (Frame ι) := []
  /-- A member function was called through a null `_impl`. -/
  crashed : Bool := false

namespace State

variable {ι : Type*} [DecidableEq ι] (s : State ι) (i : ι)

def registerWork : State ι := { s with works := s.works.concat i }

def unregisterWork : State ι := { s with works := s.works.erase i }

def set (work : Work) : State ι := { s with work := Function.update s.work i work }

/-- `Work::impl` creates the backend's object when there is none. -/
def impl : UVWork := (s.work i).impl.getD {}

def queue (reply : Option ErrorCode) : Option ErrorCode × State ι :=
  if (s.work i).active then (some .operationInProgress, s)
  else
    let registered := s.registerWork i
    match (registered.impl i).queue reply with
    | (some err, impl) => (some err, registered.set i { registered.work i with impl := some impl })
    | (none, impl) => (none, registered.set i { impl := some impl, active := true })

def handleAfterWork (err : Option ErrorCode) : State ι :=
  let unregistered := s.unregisterWork i
  let inactive := unregistered.set i { unregistered.work i with active := false }
  { inactive with frames := { work := i, err } :: inactive.frames }

def cancel (canceled : Bool) : State ι :=
  if (s.work i).active then
    match (s.work i).impl with
    | none => { s with crashed := true }
    | some impl =>
      if impl.destroy canceled then
        (s.set i { s.work i with impl := none }).handleAfterWork i (some .operationCanceled)
      else s
  else s

/-- `UVWork::on_after_work` -/
def onAfterWork (status : Option ErrorCode) : State ι :=
  (s.set i { s.work i with impl := some { active := false } }).handleAfterWork i status

end State

/-! ### Runs -/

inductive Move (ι : Type*) where
  | queue (work : ι) (reply : Option ErrorCode)
  | cancel (work : ι) (canceled : Bool)
  /-- The backend has done the work. -/
  | afterWork (work : ι) (status : Option ErrorCode)
  /-- The innermost callback returns, or throws to the code around it. -/
  | ret
deriving DecidableEq, Repr

variable {ι : Type*} [DecidableEq ι]

def step (s : State ι) : Move ι → Option (State ι)
  | .queue i reply => if s.crashed then none else some (s.queue i reply).2
  | .cancel i canceled => if s.crashed then none else some (s.cancel i canceled)
  | .afterWork i status =>
    if s.crashed then none
    else if (s.work i).impl = some { active := true } then some (s.onAfterWork i status)
    else none
  | .ret =>
    match s.frames with
    | [] => none
    | _ :: frames => if s.crashed then none else some { s with frames := frames }

/-- The calls and events from a new loop on. -/
def run (moves : List (Move ι)) : Option (State ι) := moves.foldlM step {}

end UniEvent.WorkQueue
