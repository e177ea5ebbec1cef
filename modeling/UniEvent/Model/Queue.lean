import UniEvent.Program.Exec
import Mathlib.Logic.Function.Basic

/-! # The request queue

`Queue` serializes the requests of one handle. It is generic in the request class: `exec`, `cancel`
and `notify` are virtual, and `done` takes a completion closure. A request is named by a value of
`ρ` (its object identity), a completion closure by a value of `φ`, and `Hooks` supplies their
meaning, so that every owner of a queue is an instance of the functions below.

`World` holds the queue, the part of each request and of the loop that the queue touches, and the
owner's own state. `IntrusiveChain` is a list; `Request::delay` keeps at most one entry for each
request in the loop's delayer, which `delay_cancel` removes. The trace is a ghost log, newest event
first: no function reads it.
-/

namespace UniEvent

open Program Program.Exec

/-- The error codes handed to completions. -/
inductive Err where
  | canceled
  | timedOut
  | notConnected
  | brokenPipe
  | readStart
  | other (code : ℕ)
deriving DecidableEq, Repr

/-- A callback postponed with `Request::delay`, with the request whose `_delay_id` names it. -/
inductive Delayed (ρ φ : Type) where
  /-- `delay_fn` of `Queue::done`, followed by `resume()` when the recursion was split. -/
  | finalize (req : ρ) (f : φ) (split : Bool)
  /-- `delay([=]{ cancel(err); })` -/
  | cancel (req : ρ) (err : Err)
deriving DecidableEq, Repr

@[simp] def Delayed.req {ρ φ : Type} : Delayed ρ φ → ρ
  | .finalize req _ _ => req
  | .cancel req _ => req

@[simp] def Delayed.isSplit {ρ φ : Type} : Delayed ρ φ → Bool
  | .finalize _ _ split => split
  | .cancel _ _ => false

/-- What a run does, with the queue as it was at that moment. -/
inductive Event (ρ φ η : Type) where
  | push (req : ρ)
  | exec (req : ρ) (requests : List ρ)
  /-- `done` is entered with `check`. -/
  | done (check : ρ) (requests : List ρ)
  /-- `done` runs the closure at once; `parked` still wait for theirs. -/
  | finish (req : ρ) (f : φ) (parked : List ρ)
  /-- A delayed callback runs the closure of a parked request. -/
  | fire (req : ρ) (f : φ)
  /-- `cancel` hands a parked request to `notify`. -/
  | notify (req : ρ) (err : Err)
  /-- `cancel` calls the virtual `cancel` of the front request. -/
  | cancel (req : ρ)
  /-- The `resume()` that ends a split callback. -/
  | resume (requests : List ρ)
  /-- An exception leaves a split callback before its `resume()`; `split` tells whether another
  split callback is scheduled. -/
  | skip (requests : List ρ) (split : Bool)
  | own (note : η)
deriving DecidableEq, Repr

structure World (ρ φ η ε : Type) where
  requests : List ρ
  finalizedRequests : List ρ
  locked : ℕ
  cancelGen : ℕ
  cancelTill : Option ρ
  resumeRecursion : ℕ
  /-- `Request::async` -/
  async : ρ → Bool
  /-- The backend holds `_impl` and will still report on the request. -/
  active : ρ → Bool
  delayed : List (Delayed ρ φ)
  trace : List (Event ρ φ η)
  owner : ε

/-- The virtual members of a request class, the meaning of its closures, and the user's code.
`budget` bounds the loops of one call, as the depth of the hooks themselves bounds recursion. -/
structure Hooks (ρ φ η ε : Type) where
  exec : ρ → Exec (World ρ φ η ε) Unit
  cancel : ρ → Err → Exec (World ρ φ η ε) Unit
  notify : ρ → Err → Exec (World ρ φ η ε) Unit
  call : φ → Exec (World ρ φ η ε) Unit
  user : Exec (World ρ φ η ε) Unit
  budget : ℕ

/-- Recursion that is cut off everywhere. -/
def Hooks.spent {ρ φ η ε : Type} : Hooks ρ φ η ε where
  exec _ := halt .exhausted
  cancel _ _ := halt .exhausted
  notify _ _ := halt .exhausted
  call _ := halt .exhausted
  user := halt .exhausted
  budget := 0

variable {ρ φ η ε : Type}

namespace World

/-- `Queue::Queue` for a given owner. -/
def initial (owner : ε) : World ρ φ η ε where
  requests := []
  finalizedRequests := []
  locked := 0
  cancelGen := 0
  cancelTill := none
  resumeRecursion := 0
  async _ := false
  active _ := false
  delayed := []
  trace := []
  owner

def log (e : Event ρ φ η) (s : World ρ φ η ε) : World ρ φ η ε := { s with trace := e :: s.trace }

def lock (s : World ρ φ η ε) : World ρ φ η ε := { s with locked := s.locked + 1 }

def unlock (s : World ρ φ η ε) : World ρ φ η ε := { s with locked := s.locked - 1 }

/-- Some split callback is scheduled with the loop. -/
def splitPending (s : World ρ φ η ε) : Bool := s.delayed.any Delayed.isSplit

variable [DecidableEq ρ]

def setAsync (req : ρ) (async : Bool) (s : World ρ φ η ε) : World ρ φ η ε :=
  { s with async := Function.update s.async req async }

/-- `Request::delay_cancel` -/
def delayCancel (req : ρ) (s : World ρ φ η ε) : World ρ φ η ε :=
  { s with delayed := s.delayed.filter fun d => decide (d.req ≠ req) }

/-- `Request::delay` -/
def delay (d : Delayed ρ φ) (s : World ρ φ η ε) : World ρ φ η ε :=
  { s with delayed := (s.delayCancel d.req).delayed ++ [d] }

/-- `Request::finish_exec` -/
def finishExec (req : ρ) (s : World ρ φ η ε) : World ρ φ η ε :=
  { s.delayCancel req with active := Function.update s.active req false }

/-- The first two statements of `Queue::push`. -/
def enqueue (req : ρ) (s : World ρ φ η ε) : World ρ φ η ε :=
  { (s.setAsync req false).log (.push req) with requests := s.requests ++ [req] }

/-- `if (req == cancel_till) cancel_till = nullptr; req->finish_exec(); requests.pop_front();` -/
def retire (req : ρ) (s : World ρ φ η ε) : World ρ φ η ε :=
  { s.finishExec req with
    cancelTill := if s.cancelTill = some req then none else s.cancelTill
    requests := s.requests.tail }

/-- `finalized_requests.push_back(req); req->delay(..);` -/
def park (req : ρ) (f : φ) (split : Bool) (s : World ρ φ η ε) : World ρ φ η ε :=
  { s.delay (.finalize req f split) with finalizedRequests := s.finalizedRequests ++ [req] }

/-- `finalized_requests.pop_front(); cur->delay_cancel();` with the call of `notify` that follows. -/
def flush (cur : ρ) (err : Err) (s : World ρ φ η ε) : World ρ φ η ε :=
  { (s.delayCancel cur).log (.notify cur err) with finalizedRequests := s.finalizedRequests.tail }

/-- `finalized_requests.pop_front();` of a delayed callback the loop has taken out. -/
def unpark (check : ρ) (f : φ) (s : World ρ φ η ε) : World ρ φ η ε :=
  { s.log (.fire check f) with
    delayed := s.delayed.tail
    finalizedRequests := s.finalizedRequests.tail }

/-- `++locked; cancel_till = till ? till : requests.back();` -/
def beginCancel (till : Option ρ) (s : World ρ φ η ε) : World ρ φ η ε :=
  { s.lock with cancelTill := till.orElse fun _ => s.requests.getLast? }

/-- `cancel_till = nullptr; --locked;` -/
def endCancel (s : World ρ φ η ε) : World ρ φ η ε := { s.unlock with cancelTill := none }

section Trace
variable (s : World ρ φ η ε) (req : ρ) (f : φ) (split : Bool) (err : Err) (e : Event ρ φ η)

omit [DecidableEq ρ] in
@[simp] theorem log_trace : (s.log e).trace = e :: s.trace := rfl

omit [DecidableEq ρ] in
@[simp] theorem lock_trace : s.lock.trace = s.trace := rfl

@[simp] theorem enqueue_trace : (s.enqueue req).trace = .push req :: s.trace := rfl

@[simp] theorem retire_trace : (s.retire req).trace = s.trace := rfl

@[simp] theorem park_trace : (s.park req f split).trace = s.trace := rfl

@[simp] theorem flush_trace : (s.flush req err).trace = .notify req err :: s.trace := rfl

omit [DecidableEq ρ] in
@[simp] theorem unpark_trace : (s.unpark req f).trace = .fire req f :: s.trace := rfl

end Trace

end World

namespace Queue

variable [DecidableEq ρ]

def SPLIT_RECURSION : ℕ := 300

/-- The call `req->exec()`. -/
def start (h : Hooks ρ φ η ε) (req : ρ) : Exec (World ρ φ η ε) Unit := do
  modify fun s => s.log (.exec req s.requests)
  h.exec req

def resume (h : Hooks ρ φ η ε) : Exec (World ρ φ η ε) Unit := do
  let s ← get
  match s.requests with
  | [] => pure ()
  | req :: _ => when (s.locked = 0) (start h req)

/-- `Queue::push` after the request has been appended. -/
def pushed (h : Hooks ρ φ η ε) (req : ρ) : Exec (World ρ φ η ε) Unit := do
  let s ← get
  when (s.requests.length = 1 ∧ s.locked = 0) (start h req)
  modify (World.setAsync req true)

def push (h : Hooks ρ φ η ε) (req : ρ) : Exec (World ρ φ η ε) Unit := do
  modify (World.enqueue req)
  pushed h req

/-- The guard of `done`: `--locked; ++resume_recursion; resume(); --resume_recursion;` -/
def release (h : Hooks ρ φ η ε) : Exec (World ρ φ η ε) Unit := do
  modify World.unlock
  modify fun s => { s with resumeRecursion := s.resumeRecursion + 1 }
  resume h
  modify fun s => { s with resumeRecursion := s.resumeRecursion - 1 }

/-- What `done` does with the closure of the request it has just removed. -/
def complete (h : Hooks ρ φ η ε) (req : ρ) (f : φ) : Exec (World ρ φ η ε) Unit := do
  let s ← get
  if SPLIT_RECURSION < s.resumeRecursion then
    modify (World.park req f true)
  else if s.async req = true then do
    modify World.lock
    modify fun s => s.log (.finish req f s.finalizedRequests)
    scopeGuard (h.call f) (release h)
  else
    modify (World.park req f false)

def done (h : Hooks ρ φ η ε) (check : ρ) (f : φ) : Exec (World ρ φ η ε) Unit := do
  modify fun s => s.log (.done check s.requests)
  let s ← get
  assert (s.requests.head? = some check)
  modify (World.retire check)
  complete h check f

/-- `while (finalized_requests.size()) ..`: whether the keeper caught an exception. -/
def flushFinalized (h : Hooks ρ φ η ε) : ℕ → Exec (World ρ φ η ε) Bool
  | 0 => halt .exhausted
  | budget + 1 => do
    let s ← get
    match s.finalizedRequests with
    | [] => pure false
    | cur :: _ => do
      modify (World.flush cur .canceled)
      let kept ← attempt (h.notify cur .canceled)
      let later ← flushFinalized h budget
      pure (kept || later)

/-- `do { .. } while (cancel_till && cur != cancel_till);` -/
def cancelRequests (h : Hooks ρ φ η ε) : ℕ → Exec (World ρ φ η ε) Bool
  | 0 => halt .exhausted
  | budget + 1 => do
    let s ← get
    match s.requests with
    | [] => halt .aborted
    | cur :: _ => do
      modify (World.log (.cancel cur))
      let kept ← attempt (h.cancel cur .canceled)
      let s ← get
      assert (s.requests.head? ≠ some cur)
      if s.cancelTill ≠ none ∧ s.cancelTill ≠ some cur then do
        let later ← cancelRequests h budget
        pure (kept || later)
      else pure kept

/-- `if (requests.size() && cancel_till) ..` -/
def cancelWaiting (h : Hooks ρ φ η ε) : Exec (World ρ φ η ε) Bool := do
  let s ← get
  if s.requests ≠ [] ∧ s.cancelTill ≠ none then cancelRequests h h.budget else pure false

/-- `if (gen == cancel_gen) ..`: the post step is left to a recursive cancel if there was one. -/
def postCancel (fpost : Exec (World ρ φ η ε) Unit) (gen : ℕ) : Exec (World ρ φ η ε) Bool := do
  let s ← get
  if gen = s.cancelGen then
    attempt (do fpost; modify fun s => { s with cancelGen := s.cancelGen + 1 })
  else pure false

/-- `cancel` up to its post step: whether the keeper caught an exception. -/
def cancelPending (h : Hooks ρ φ η ε) (fpre : Exec (World ρ φ η ε) Unit) : Exec (World ρ φ η ε) Bool := do
  let flushed ← flushFinalized h h.budget
  let pre ← attempt fpre
  let canceled ← cancelWaiting h
  pure (flushed || pre || canceled)

/-- The part of `cancel` that runs under its lock. `gen` is the generation read on entry. -/
def cancelLocked (h : Hooks ρ φ η ε) (fpre fpost : Exec (World ρ φ η ε) Unit) (gen : ℕ) :
    Exec (World ρ φ η ε) Bool := do
  let kept ← cancelPending h fpre
  let post ← postCancel fpost gen
  pure (kept || post)

def cancel (h : Hooks ρ φ η ε) (fpre fpost : Exec (World ρ φ η ε) Unit) (till : Option ρ) :
    Exec (World ρ φ η ε) Unit := do
  modify (World.beginCancel till)
  let s ← get
  let kept ← cancelLocked h fpre fpost s.cancelGen
  modify World.endCancel
  resume h
  when (kept = true) (halt .thrown)

/-- `delay_fn(); resume();`, the callback of a split completion. The log of the way out is ghost. -/
def splitCallback (h : Hooks ρ φ η ε) (f : φ) : Exec (World ρ φ η ε) Unit := do
  let failed ← attempt (h.call f)
  if failed = true then do
    modify fun s => s.log (.skip s.requests s.splitPending)
    halt .thrown
  else do
    modify fun s => s.log (.resume s.requests)
    resume h

/-- The loop runs the oldest delayed callback. -/
def fire (h : Hooks ρ φ η ε) : Exec (World ρ φ η ε) Unit := do
  let s ← get
  match s.delayed with
  | [] => pure ()
  | .finalize check f split :: _ => do
    assert (s.finalizedRequests.head? = some check)
    modify (World.unpark check f)
    if split = true then splitCallback h f else h.call f
  | .cancel req err :: rest => do
    modify fun s => { s with delayed := rest }
    h.cancel req err

end Queue

end UniEvent
