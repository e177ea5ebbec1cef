import UniEvent.Model.Queue

/-! # Runs of a queue under an arbitrary owner

The environment of one queue is everything its code does not decide: when the backend reports, what
the user's callbacks do, and which callbacks the loop runs. It is given as two scripts, consumed as
decisions fall due: `replies` for the virtual members of requests and `script` for the user's code.
All runs are covered by quantifying over the scripts. An exhausted script means the plainest choice:
a callback that returns, and a backend that reports later.

A run is a list of turns of the event loop. The loop survives an exception and goes on with the next
turn; a turn that is stopped, aborted, or out of budget ends the run, and the state it reached is
still an observable state of the run.
-/

namespace UniEvent.QueueRun

open Program Program.Exec

/-- The only closure an arbitrary owner passes to `done`: the user callback of the request. -/
inductive Fn where
  | callback (req : ℕ)
deriving DecidableEq, Repr

/-- The post step of a cancel: nothing, code of the user, or `reqp->cancel(..)` of the new front
as in the shutdown timer. -/
inductive PostStep where
  | none
  | user
  | cancelFront
deriving DecidableEq, Repr

/-- The two ways of driving a queue from outside. `pre` asks for `done` of the request that is at
the front when `cancel` is called, as a failed connect does. -/
inductive Op where
  | push (req : ℕ)
  | cancel (pre : Bool) (post : PostStep) (till : Option ℕ)
deriving DecidableEq, Repr

/-- What code of the user does next. `stop` ends the observation in the middle of a callback. -/
inductive Act where
  | op (op : Op)
  | ret
  | throw
  | stop
deriving DecidableEq, Repr

/-- How the class of a request answers `exec` and `cancel`. -/
inductive Reply where
  /-- The backend reports at a later turn. -/
  | pending
  /-- The backend reports inside `exec`; the loop keeps exceptions (`RequestImpl::handle_event`). -/
  | sync
  /-- `exec` calls `done` itself, as `RunInOrderRequest` and `DisconnectRequest` do. -/
  | direct
  /-- `cancel` returns without calling `done`, as for `RunInOrderRequest`. -/
  | ignore
  /-- The backend reports inside the call, and code of the user runs before the request is completed, as
  `on_establish` does for a connect request. -/
  | handled (fails : Bool)
deriving DecidableEq, Repr

/-- What is recorded of the owner's code, with the requests that wait then. -/
inductive Note where
  /-- An exception leaves the code of the user that runs before `done`. -/
  | left (req : ℕ) (requests : List ℕ)
  /-- It has returned, and `done` follows; `resumes` if that is under the lock or goes on to the next request. -/
  | handled (requests : List ℕ) (resumes : Bool)
  /-- An exception leaves `exec`. -/
  | execLeft (req : ℕ)
deriving DecidableEq, Repr

structure Env where
  script : List Act := []
  replies : List Reply := []

abbrev State := World ℕ Fn Note Env

abbrev Members := Hooks ℕ Fn Note Env

def nextAct : Exec State Act := do
  let s ← get
  modify fun s => { s with owner := { s.owner with script := s.owner.script.tail } }
  pure (s.owner.script.headD .ret)

def nextReply : Exec State Reply := do
  let s ← get
  modify fun s => { s with owner := { s.owner with replies := s.owner.replies.tail } }
  pure (s.owner.replies.headD .pending)

/-- Ghost: an exception that leaves the code is recorded. -/
def noting (note : State → Note) (code : Exec State Unit) : Exec State Unit := do
  let failed ← attempt code
  when (failed = true) (do
    modify fun s => s.log (.own (note s))
    halt .thrown)

/-- `ConnectRequest::handle_event`: the listener is called, and the request is completed after it. A connect
that failed cancels everything behind it, unless the queue is being canceled (`finalize_handle_connect`). -/
def handleEvent (h : Members) (req : ℕ) (fails : Bool) : Exec State Unit := do
  modify fun s => { s with active := Function.update s.active req false }
  noting (fun s => .left req s.requests) h.user
  let s ← get
  if fails = true ∧ s.cancelTill = none then
    Queue.cancel h (Queue.done h req (.callback req)) (pure ()) none
  else do
    modify (World.log (.own (.handled s.requests
      (s.async req = true ∨ 0 < s.locked ∨ Queue.SPLIT_RECURSION < s.resumeRecursion))))
    Queue.done h req (.callback req)

def exec (h : Members) (req : ℕ) : Exec State Unit := do
  let reply ← nextReply
  match reply with
  | .sync => ignoring (Queue.done h req (.callback req))
  | .direct => noting (fun _ => .execLeft req) (Queue.done h req (.callback req))
  | .handled fails => ignoring (handleEvent h req fails)
  | .pending | .ignore => modify fun s => { s with active := Function.update s.active req true }

def cancel (h : Members) (req : ℕ) (_err : Err) : Exec State Unit := do
  let reply ← nextReply
  match reply with
  | .ignore => pure ()
  | .handled fails => handleEvent h req fails
  | .pending | .sync | .direct => Queue.done h req (.callback req)

def preStep (h : Members) (pre : Bool) (front : Option ℕ) : Exec State Unit :=
  match pre, front with
  | true, some req => Queue.done h req (.callback req)
  | _, _ => pure ()

def postStep (h : Members) : PostStep → Exec State Unit
  | .none => pure ()
  | .user => h.user
  | .cancelFront => do
    let s ← get
    match s.requests with
    | [] => pure ()
    | req :: _ => h.cancel req .timedOut

/-- A request is a node of at most one chain, so only a request that is in neither can be pushed,
and `till` is a request of the queue. -/
def runOp (h : Members) : Op → Exec State Unit
  | .push req => do
    let s ← get
    when (req ∉ s.requests ∧ req ∉ s.finalizedRequests) (Queue.push h req)
  | .cancel pre post till => do
    let s ← get
    Queue.cancel h (preStep h pre s.requests.head?) (postStep h post)
      (till.filter fun req => decide (req ∈ s.requests))

def user (h : Members) : Exec State Unit := do
  let act ← nextAct
  match act with
  | .ret => pure ()
  | .throw => halt .thrown
  | .stop => halt .stopped
  | .op op => do
    runOp h op
    h.user

/-- The members of a request, with recursion up to a given depth. -/
def members : ℕ → Members
  | 0 => .spent
  | n + 1 =>
    { exec := exec (members n)
      cancel := cancel (members n)
      notify := fun _ _ => user (members n)
      call := fun _ => user (members n)
      user := user (members n)
      budget := n }

/-- What the loop does in one turn. The backend has a request completed at once, or reports to it. -/
inductive Task where
  | op (op : Op)
  | complete (req : ℕ)
  | report (req : ℕ) (fails : Bool)
  | fire
deriving DecidableEq, Repr

def perform (h : Members) : Task → Exec State Unit
  | .op op => runOp h op
  | .complete req => do
    let s ← get
    when (s.active req = true) (ignoring (Queue.done h req (.callback req)))
  | .report req fails => do
    let s ← get
    when (s.active req = true) (ignoring (handleEvent h req fails))
  | .fire => Queue.fire h

structure Turn where
  depth : ℕ
  env : Env
  task : Task

def turn (t : Turn) : Exec State Unit := do
  modify fun s => { s with owner := t.env }
  perform (members t.depth) t.task

def run : List Turn → Exec State Unit
  | [] => pure ()
  | t :: ts => do
    ignoring (turn t)
    run ts

def initial : State := World.initial {}

end UniEvent.QueueRun
