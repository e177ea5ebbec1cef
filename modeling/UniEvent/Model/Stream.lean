import UniEvent.Model.Queue

/-! # A stream and the requests of its queue

`Stream` owns a queue of connect, write, shutdown, disconnect, accept and run-in-order requests. Each
kind answers `exec`, `cancel`, `handle_event` and `notify` in its own way; the functions below follow
`Stream.cc` in that order. Filters forward to the `finalize_..` members, so the backend together with
the filters is the environment.

The environment is scripted. `replies` says how the backend answers the next call that asks it
something, and `script` what the user's code does next, be it the callback of a request, an event
handler of the stream or its listener. A run is a list of turns of the event loop.

Left out: the `LISTENING` and `IGNORE_READ` flags, which no modelled function reads, and what the
registered handlers and filters do: calls of handlers are calls of `user`, and `Setup` only says which
are there.
-/

namespace UniEvent.Stream

open Program Program.Exec

/-- The request objects, with the parameters that stay fixed while they are queued: timeouts in
milliseconds (0 for none) and the lengths of the buffers of a write. -/
inductive Req where
  | connect (id timeout : ℕ)
  | write (id : ℕ) (bufs : List ℕ)
  | shutdown (id timeout : ℕ)
  | disconnect (id : ℕ)
  | accept (id : ℕ)
  | runInOrder (id : ℕ)
deriving DecidableEq, Repr

/-- The closures passed to `Queue::done`. -/
inductive Fn where
  /-- `[=]{ notify_on_..(err, req); }` -/
  | notifyOn (req : Req) (err : Option Err)
  /-- `[&]{ handle->_reset(); }` -/
  | reset
  /-- `[this]{ code(handle); }` -/
  | code (req : Req)
  /-- `[]{}` -/
  | nothing
deriving DecidableEq, Repr

/-- Ghost notes of the stream in the trace. -/
inductive Note where
  /-- `ConnectRequest::handle_event` is entered. -/
  | connectEvent (req : Req)
  /-- An exception of `on_establish` leaves `ConnectRequest::handle_event`. -/
  | connectLeft (req : Req)
  /-- `reset()` or `clear()` is called. -/
  | resetCall
  /-- `run_in_order` runs its code at once; `parked` still wait for their callbacks. -/
  | runNow (parked : List Req)
  /-- `WriteRequest::exec` takes its buffers out of `_wq_size`, which was `wqSize`. -/
  | passed (req : Req) (wqSize : UInt64)
  /-- `_reset` or `_clear` sets `_wq_size` to zero. -/
  | zero (requests : List Req)
  /-- The loop starts a turn. -/
  | turn
deriving DecidableEq, Repr

structure Flags where
  connecting : Bool := false
  established : Bool := false
  inConnected : Bool := false
  outConnected : Bool := false
  dontRead : Bool := false
  reading : Bool := false
  shutting : Bool := false
  shut : Bool := false
deriving DecidableEq, Repr

/-- What is done to a stream from outside or from a callback. -/
inductive Op where
  | connect (id timeout : ℕ)
  | write (id : ℕ) (bufs : List ℕ)
  | shutdown (id timeout : ℕ)
  | runInOrder
  | disconnect
  | reset
  | clear
  | readStart
  | readStop
  /-- `open` of a connected descriptor. -/
  | opened
  /-- A server accepts this stream, through filters if `filtered`. -/
  | accept (filtered : Bool)
deriving DecidableEq, Repr

/-- What code of the user does next. `stop` ends the observation in the middle of a callback. -/
inductive Act where
  | op (op : Op)
  | ret
  | throw
  | stop
deriving DecidableEq, Repr

/-- How the backend answers. -/
inductive Reply where
  /-- It accepts the request and reports at a later turn. -/
  | pending
  /-- It refuses with an error code. -/
  | failed (err : Err)
  /-- It reports inside the call; the loop keeps exceptions (`RequestImpl::handle_event`). -/
  | sync (err : Option Err)
deriving DecidableEq, Repr

/-- What the user has set up on the stream: the filters in their order, the listener and the callbacks, and
the number of handlers in each event dispatcher. -/
structure Setup where
  filters : List ℕ := []
  listener : Bool := false
  bufAllocCallback : Bool := false
  connectionFactory : Bool := false
  connectionEvent : ℕ := 0
  connectEvent : ℕ := 0
  readEvent : ℕ := 0
  writeEvent : ℕ := 0
  shutdownEvent : ℕ := 0
  eofEvent : ℕ := 0
deriving DecidableEq, Repr

/-- A call of `clear()` or `reset()` by the user that came back; it is innermost if no other such call came
back meanwhile. -/
structure Call where
  clear : Bool
  innermost : Bool
deriving DecidableEq, Repr

structure Handle where
  flags : Flags := {}
  wqSize : UInt64 := 0
  setup : Setup := {}
  /-- Ghost: the calls of `reset()` and `clear()` by the user, newest first. -/
  calls : List Call := []
  /-- `ConnectRequest::_timer` is running. -/
  connectTimer : Req → Bool := fun _ => false
  /-- `ShutdownRequest::timer` is running. -/
  shutdownTimer : Req → Bool := fun _ => false
  timedOut : Req → Bool := fun _ => false
  script : List Act := []
  replies : List Reply := []

abbrev State := World Req Fn Note Handle

abbrev Members := Hooks Req Fn Note Handle

def note (n : Note) : Exec State Unit := modify (World.log (.own n))

def update (f : Handle → Handle) : Exec State Unit := modify fun s => { s with owner := f s.owner }

def setFlags (f : Flags → Flags) : Exec State Unit := update fun o => { o with flags := f o.flags }

def nextAct : Exec State Act := do
  let s ← get
  update fun o => { o with script := o.script.tail }
  pure (s.owner.script.headD .ret)

def nextReply : Exec State Reply := do
  let s ← get
  update fun o => { o with replies := o.replies.tail }
  pure (s.owner.replies.headD .pending)

def activate (req : Req) : Exec State Unit :=
  modify fun s => { s with active := Function.update s.active req true }

/-! ### Connection state -/

def _readStart : Exec State (Option Err) := do
  let s ← get
  if s.owner.flags.reading = true ∨ s.owner.flags.established = false then pure none
  else do
    let reply ← nextReply
    match reply with
    | .failed _ => pure (some .readStart)
    | _ => do
      setFlags fun f => { f with reading := true }
      pure none

def setConnectResult (ok : Bool) : Exec State (Option Err) := do
  setFlags fun f => { f with connecting := false }
  if ok = true then do
    setFlags fun f => { f with inConnected := true, outConnected := true, established := true }
    let s ← get
    if s.owner.flags.dontRead = false then _readStart else pure none
  else pure none

def clearOutConnected : Exec State Unit :=
  setFlags fun f => { f with outConnected := false, established := f.established && f.inConnected }

def clearInConnected : Exec State Unit :=
  setFlags fun f => { f with inConnected := false, established := f.established && f.outConnected }

def setShutdown (ok : Bool) : Exec State Unit := do
  setFlags fun f => { f with shutting := false, shut := true }
  when (ok = true) clearOutConnected

/-- `flags &= DONTREAD; _wq_size = 0;` -/
def _reset : Exec State Unit :=
  modify fun s =>
    { s.log (.own (.zero s.requests)) with
      owner := { s.owner with flags := { dontRead := s.owner.flags.dontRead }, wqSize := 0 } }

/-- `_filters.clear(); flags = 0; _wq_size = 0; _listener = nullptr; .. eof_event.remove_all();` -/
def _clear : Exec State Unit :=
  modify fun s =>
    { s.log (.own (.zero s.requests)) with owner := { s.owner with flags := {}, wqSize := 0, setup := {} } }

/-! ### Operations -/

def reset (h : Members) : Exec State Unit := do
  note .resetCall
  Queue.cancel h (pure ()) _reset none

def clear (h : Members) : Exec State Unit := do
  note .resetCall
  Queue.cancel h (pure ()) _clear none

/-- A call by the user is written down when it comes back; the note is ghost. -/
def noting (clear : Bool) (call : Exec State Unit) : Exec State Unit := do
  let s ← get
  scopeGuard call (update fun o =>
    { o with calls := ⟨clear, decide (o.calls.length = s.owner.calls.length)⟩ :: o.calls })

def Req.id : Req → ℕ
  | .connect id _ | .write id _ | .shutdown id _ | .disconnect id | .accept id | .runInOrder id => id

/-- A name for a new object: no request of the queue has it. -/
def freshId (s : State) : ℕ := ((s.requests ++ s.finalizedRequests).map Req.id).foldr max 0 + 1

/-- `queue.push(new ..)` -/
def pushNew (h : Members) (f : ℕ → Req) : Exec State Unit := do
  let s ← get
  Queue.push h (f (freshId s))

def disconnect (h : Members) : Exec State Unit := do
  let s ← get
  if s.requests = [] then _reset
  else if s.requests.length = 1 ∧ s.owner.flags.connecting = true then noting false (reset h)
  else pushNew h .disconnect

def runInOrder (h : Members) : Exec State Unit := do
  let s ← get
  if s.requests = [] then do
    note (.runNow s.finalizedRequests)
    h.user
  else pushNew h .runInOrder

/-- `for (const auto& buf : bufs) size += buf.length();` -/
def addBuffers (bufs : List ℕ) (size : UInt64) : UInt64 := bufs.foldl (fun size buf => size + .ofNat buf) size

/-- `for (const auto& buf : bufs) size -= buf.length();` -/
def subBuffers (bufs : List ℕ) (size : UInt64) : UInt64 := bufs.foldl (fun size buf => size - .ofNat buf) size

/-- `Queue::push` of a request about which the stream writes something down first. -/
def pushWith (h : Members) (req : Req) (f : Handle → Handle) : Exec State Unit := do
  modify fun s => World.enqueue req { s with owner := f s.owner }
  Queue.pushed h req

def write (h : Members) (id : ℕ) (bufs : List ℕ) : Exec State Unit :=
  pushWith h (.write id bufs) fun o => { o with wqSize := addBuffers bufs o.wqSize }

def shutdown (h : Members) (id timeout : ℕ) : Exec State Unit :=
  pushWith h (.shutdown id timeout) fun o =>
    { o with
      timedOut := Function.update o.timedOut (.shutdown id timeout) false
      shutdownTimer := Function.update o.shutdownTimer (.shutdown id timeout) (decide (timeout ≠ 0)) }

/-- `finalize_handle_connection` of the accepted stream. -/
def finalizeHandleConnection (h : Members) (err : Option Err) (req : Option Req) : Exec State Unit := do
  let _ ← setConnectResult (decide (err = none))
  match req with
  | some req => do
    Queue.done h req .nothing
    h.user
  | none => h.user

/-- `client->set_connecting(); client->set_established();` and the accept request for filters. -/
def accept (h : Members) (filtered : Bool) : Exec State Unit := do
  setFlags fun f => { f with connecting := true, established := true }
  if filtered = true then pushNew h .accept else finalizeHandleConnection h none none

/-- The request is a node of neither chain. -/
def Unlinked (s : State) (req : Req) : Prop := req ∉ s.requests ∧ req ∉ s.finalizedRequests

instance (s : State) (req : Req) : Decidable (Unlinked s req) :=
  inferInstanceAs (Decidable (req ∉ s.requests ∧ req ∉ s.finalizedRequests))

/-- The user submits only requests that are not in the queue. -/
def runOp (h : Members) : Op → Exec State Unit
  | .connect id timeout => do
    let s ← get
    when (Unlinked s (.connect id timeout)) (Queue.push h (.connect id timeout))
  | .write id bufs => do
    let s ← get
    when (Unlinked s (.write id bufs)) (write h id bufs)
  | .shutdown id timeout => do
    let s ← get
    when (Unlinked s (.shutdown id timeout)) (shutdown h id timeout)
  | .runInOrder => runInOrder h
  | .disconnect => disconnect h
  | .reset => noting false (reset h)
  | .clear => noting true (clear h)
  | .readStart => do
    setFlags fun f => { f with dontRead := false }
    let _ ← _readStart
    pure ()
  | .readStop => setFlags fun f => { f with dontRead := true, reading := false }
  | .opened => do
    let _ ← setConnectResult true
    pure ()
  | .accept filtered => accept h filtered

def user (h : Members) : Exec State Unit := do
  let act ← nextAct
  match act with
  | .ret => pure ()
  | .throw => halt .thrown
  | .stop => halt .stopped
  | .op op => do
    runOp h op
    h.user

/-! ### The members of the request classes -/

/-- `_listener->on_establish(..)` in `ConnectRequest::handle_event`. The note of the way out is ghost. -/
def onEstablish (h : Members) (req : Req) : Exec State Unit := do
  let failed ← attempt (user h)
  when (failed = true) (do note (.connectLeft req); halt .thrown)

def finalizeHandleConnect (h : Members) (connectErr : Option Err) (req : Req) : Exec State Unit := do
  let startErr ← setConnectResult (decide (connectErr = none))
  update fun o => { o with connectTimer := Function.update o.connectTimer req false }
  let s ← get
  if connectErr.or startErr = none ∨ s.cancelTill ≠ none then
    Queue.done h req (.notifyOn req (connectErr.or startErr))
  else Queue.cancel h (Queue.done h req (.notifyOn req (connectErr.or startErr))) _reset none

def handleEvent (h : Members) (req : Req) (err : Option Err) : Exec State Unit :=
  match req with
  | .connect _ _ => do
    note (.connectEvent req)
    when (err = none) (setFlags fun f => { f with established := true })
    onEstablish h req
    finalizeHandleConnect h err req
  | .write _ _ => do
    when (err = some .brokenPipe) clearOutConnected
    Queue.done h req (.notifyOn req err)
  | .shutdown _ _ => do
    setShutdown (decide (err = none))
    update fun o => { o with shutdownTimer := Function.update o.shutdownTimer req false }
    Queue.done h req (.notifyOn req err)
  | .disconnect _ | .accept _ | .runInOrder _ => pure ()

/-- The backend is asked to run the request. -/
def submit (h : Members) (req : Req) : Exec State Unit := do
  let reply ← nextReply
  match reply with
  | .pending => activate req
  | .failed err => modify (World.delay (.cancel req err))
  | .sync err => ignoring (handleEvent h req err)

/-- `impl()->shutdown(..)` has no error code; the backend reports a refusal inside the call. -/
def submitShutdown (h : Members) (req : Req) : Exec State Unit := do
  let reply ← nextReply
  match reply with
  | .pending => activate req
  | .failed err => ignoring (handleEvent h req (some err))
  | .sync err => ignoring (handleEvent h req err)

/-- `REQUEST_REQUIRE_WRITE_STATE` in front of the rest of `exec`. -/
def requireWriteState (req : Req) (rest : Exec State Unit) : Exec State Unit := do
  let s ← get
  if s.owner.flags.outConnected = false then modify (World.delay (.cancel req .notConnected)) else rest

/-- `for (const auto& buf : bufs) handle->_wq_size -= buf.length();` -/
def passBuffers (req : Req) (bufs : List ℕ) : Exec State Unit :=
  modify fun s =>
    { s.log (.own (.passed req s.owner.wqSize)) with
      owner := { s.owner with wqSize := subBuffers bufs s.owner.wqSize } }

def exec (h : Members) (req : Req) : Exec State Unit :=
  match req with
  | .connect _ timeout => do
    setFlags fun f => { f with connecting := true }
    when (timeout ≠ 0) (update fun o => { o with connectTimer := Function.update o.connectTimer req true })
    submit h req
  | .write _ bufs => requireWriteState req do
    passBuffers req bufs
    submit h req
  | .shutdown _ _ => requireWriteState req do
    setFlags fun f => { f with shutting := true }
    submitShutdown h req
  | .disconnect _ => Queue.done h req .reset
  | .accept _ => activate req
  | .runInOrder _ => Queue.done h req (.code req)

def cancel (h : Members) (req : Req) (err : Err) : Exec State Unit :=
  match req with
  | .shutdown _ _ => do
    let s ← get
    if s.owner.timedOut req = true ∧ err = .canceled then do
      update fun o => { o with timedOut := Function.update o.timedOut req false }
      handleEvent h req (some .timedOut)
    else handleEvent h req (some err)
  | .disconnect _ | .accept _ => Queue.done h req .nothing
  | .connect _ _ | .write _ _ | .runInOrder _ => handleEvent h req (some err)

def notify (h : Members) (req : Req) (_err : Err) : Exec State Unit :=
  match req with
  | .connect _ _ | .write _ _ | .shutdown _ _ => user h
  | .disconnect _ | .accept _ | .runInOrder _ => pure ()

def call (h : Members) : Fn → Exec State Unit
  | .notifyOn _ _ => user h
  | .reset => _reset
  | .code _ => user h
  | .nothing => pure ()

/-- The members of a request, with recursion up to a given depth. -/
def members : ℕ → Members
  | 0 => .spent
  | n + 1 =>
    { exec := exec (members n)
      cancel := cancel (members n)
      notify := notify (members n)
      call := call (members n)
      user := user (members n)
      budget := n }

/-! ### The event loop -/

/-- The timer of a shutdown request: everything before the request is canceled, then the request
itself with "timed out". -/
def shutdownTimeout (h : Members) (req : Req) : Exec State Unit := do
  let s ← get
  match (s.requests.takeWhile fun other => decide (other ≠ req)).getLast? with
  | some prev => do
    update fun o => { o with timedOut := Function.update o.timedOut req true }
    Queue.cancel h (pure ()) (cancel h req .timedOut) (some prev)
  | none => cancel h req .timedOut

/-- The backend reports on a request it holds. -/
def report (h : Members) (req : Req) (err : Option Err) : Exec State Unit := do
  modify fun s => { s with active := Function.update s.active req false }
  match req with
  | .accept _ => ignoring (finalizeHandleConnection h err (some req))
  | _ => ignoring (handleEvent h req err)

inductive Task where
  | op (op : Op)
  | complete (req : Req) (err : Option Err)
  | fire
  | connectTimer (req : Req)
  | shutdownTimer (req : Req)
  | read
  | eof
deriving DecidableEq, Repr

def perform (h : Members) : Task → Exec State Unit
  | .op op => runOp h op
  | .complete req err => do
    let s ← get
    when (s.active req = true) (report h req err)
  | .fire => Queue.fire h
  | .connectTimer req => do
    let s ← get
    when (s.owner.connectTimer req = true) (do
      update fun o => { o with connectTimer := Function.update o.connectTimer req false }
      cancel h req .timedOut)
  | .shutdownTimer req => do
    let s ← get
    when (s.owner.shutdownTimer req = true) (do
      update fun o => { o with shutdownTimer := Function.update o.shutdownTimer req false }
      shutdownTimeout h req)
  | .read => h.user
  | .eof => do
    let s ← get
    when (s.owner.flags.established = true) (do clearInConnected; h.user)

structure Turn where
  depth : ℕ
  script : List Act := []
  replies : List Reply := []
  task : Task

def turn (t : Turn) : Exec State Unit := do
  modify fun s => { s.log (.own .turn) with owner := { s.owner with script := t.script, replies := t.replies } }
  perform (members t.depth) t.task

def run : List Turn → Exec State Unit
  | [] => pure ()
  | t :: ts => do
    ignoring (turn t)
    run ts

def initial : State := World.initial {}

end UniEvent.Stream
