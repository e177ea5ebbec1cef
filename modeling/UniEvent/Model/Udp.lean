import UniEvent.Model.Stream

/-! # A datagram handle and the sends of its queue

`Udp` owns a queue of send requests. `Udp::send` adds the lengths of the buffers to `_sq_size`, `SendRequest::exec`
takes them out and hands the buffers to the backend, and `reset()` and `clear()` cancel the queue.

The environment is scripted as that of a stream: `replies` says how the backend answers the next `send`, and `script`
what the user's code does next, be it the callback of a send, a handler of the handle or its listener.

Left out: the backend handle, which `reset()` and `clear()` destroy and `impl()` makes again, and what only `clear()`
forgets besides (the domain, the allocator, the listener and the registered handlers).
-/

namespace UniEvent.Udp

open Program Program.Exec

open UniEvent.Stream (Reply addBuffers subBuffers)

/-- A request object, with the lengths of its buffers. -/
structure SendRequest where
  id : ℕ
  bufs : List ℕ
deriving DecidableEq, Repr

/-- The closure passed to `Queue::done`: `[=]{ handle->notify_on_send(err, this); }` -/
inductive Fn where
  | notifyOnSend (req : SendRequest) (err : Option Err)
deriving DecidableEq, Repr

/-- Ghost notes of the handle in the trace. -/
inductive Note where
  /-- `SendRequest::exec` takes its buffers out of `_sq_size`, which was `sqSize`. -/
  | passed (req : SendRequest) (sqSize : UInt64)
deriving DecidableEq, Repr

inductive Op where
  | send (req : SendRequest)
  | reset
  | clear
deriving DecidableEq, Repr

/-- What code of the user does next. `stop` ends the observation in the middle of a callback. -/
inductive Act where
  | op (op : Op)
  | ret
  | throw
  | stop
deriving DecidableEq, Repr

structure Handle where
  sqSize : UInt64 := 0
  script : List Act := []
  replies : List Reply := []

abbrev State := World SendRequest Fn Note Handle

abbrev Members := Hooks SendRequest Fn Note Handle

def update (f : Handle → Handle) : Exec State Unit := modify fun s => { s with owner := f s.owner }

def nextAct : Exec State Act := do
  let s ← get
  update fun o => { o with script := o.script.tail }
  pure (s.owner.script.headD .ret)

def nextReply : Exec State Reply := do
  let s ← get
  update fun o => { o with replies := o.replies.tail }
  pure (s.owner.replies.headD .pending)

/-- `for (const auto& buf : req->bufs) _sq_size += buf.length(); req->set(this); queue.push(req);` -/
def send (h : Members) (req : SendRequest) : Exec State Unit := do
  modify fun s => World.enqueue req { s with owner := { s.owner with sqSize := addBuffers req.bufs s.owner.sqSize } }
  Queue.pushed h req

/-- The post step `BackendHandle::reset()` touches nothing that is modelled. -/
def reset (h : Members) : Exec State Unit := Queue.cancel h (pure ()) (pure ()) none

/-- The post step forgets what is left out here, and nothing else: `_sq_size` stays as it is. -/
def clear (h : Members) : Exec State Unit := Queue.cancel h (pure ()) (pure ()) none

/-- A request is a node of at most one chain, so the user sends only requests that are in neither. -/
def runOp (h : Members) : Op → Exec State Unit
  | .send req => do
    let s ← get
    when (req ∉ s.requests ∧ req ∉ s.finalizedRequests) (send h req)
  | .reset => reset h
  | .clear => clear h

def user (h : Members) : Exec State Unit := do
  let act ← nextAct
  match act with
  | .ret => pure ()
  | .throw => halt .thrown
  | .stop => halt .stopped
  | .op op => do
    runOp h op
    h.user

/-! ### The members of a send request -/

def handleEvent (h : Members) (req : SendRequest) (err : Option Err) : Exec State Unit :=
  Queue.done h req (.notifyOnSend req err)

/-- `for (const auto& buf : bufs) handle->_sq_size -= buf.length();` -/
def passBuffers (req : SendRequest) : Exec State Unit :=
  modify fun s =>
    { s.log (.own (.passed req s.owner.sqSize)) with
      owner := { s.owner with sqSize := subBuffers req.bufs s.owner.sqSize } }

def exec (h : Members) (req : SendRequest) : Exec State Unit := do
  passBuffers req
  let reply ← nextReply
  match reply with
  | .pending => modify fun s => { s with active := Function.update s.active req true }
  | .failed err => modify (World.delay (.cancel req err))
  | .sync err => ignoring (handleEvent h req err)

/-- `Request::cancel` of a request without a subrequest. -/
def cancel (h : Members) (req : SendRequest) (err : Err) : Exec State Unit := handleEvent h req (some err)

/-- `notify_on_send`: the event of the request, that of the handle, and the listener. -/
def notify (h : Members) (_req : SendRequest) (_err : Err) : Exec State Unit := user h

def call (h : Members) : Fn → Exec State Unit
  | .notifyOnSend _ _ => user h

/-- The members of a request, with recursion up to a given depth. -/
def members : ℕ → Members
  | 0 => .spent
  | n + 1 =>
    { exec := exec (members n)
      cancel := cancel (members n)
      notify := notify (members n)
      call := call (members n)
      user := user (members n)
      budget := n }

/-! ### The event loop -/

inductive Task where
  | op (op : Op)
  | complete (req : SendRequest) (err : Option Err)
  | fire
  /-- `handle_receive` -/
  | receive
deriving DecidableEq, Repr

def perform (h : Members) : Task → Exec State Unit
  | .op op => runOp h op
  | .complete req err => do
    let s ← get
    when (s.active req = true) (do
      modify fun s => { s with active := Function.update s.active req false }
      ignoring (handleEvent h req err))
  | .fire => Queue.fire h
  | .receive => h.user

structure Turn where
  depth : ℕ
  script : List Act := []
  replies : List Reply := []
  task : Task

def turn (t : Turn) : Exec State Unit := do
  update fun o => { o with script := t.script, replies := t.replies }
  perform (members t.depth) t.task

def run : List Turn → Exec State Unit
  | [] => pure ()
  | t :: ts => do
    ignoring (turn t)
    run ts

def initial : State := World.initial {}

end UniEvent.Udp
