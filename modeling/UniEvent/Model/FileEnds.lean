import UniEvent.Model.Streamer

/-! # `FileInput` and `FileOutput` by themselves

The two classes of `streamer/File.cc`, whoever they belong to. What is called back is a `Listener`, which may use the
object again while it is called. The thread pool performs the requests in any order and with any result, and the
backend decides whether it gives a request back that `Work::cancel` asks for.

Every open returns a descriptor of its own. The trace is ghost, newest event first, and so are the numbers of calls
that are under way.
-/

namespace UniEvent.FileEnds

open Program Program.Exec

abbrev Data := Streamer.Data

inductive Op where
  | openFile
  | read (fd size : ℕ)
  | write (fd : ℕ) (data : Data)
deriving DecidableEq, Repr

/-- An `Fs::Request` that is active. -/
structure Request where
  id : ℕ
  op : Op
deriving DecidableEq, Repr

inductive Result where
  | opened
  | data (data : Data)
  | ok
  | failed (err : Err)
deriving DecidableEq, Repr

def Result.error : Result → Option Err
  | .failed err => some err
  | _ => none

inductive Event where
  | start
  /-- `stop` has reached its end. -/
  | stopped
  /-- An open has returned the descriptor. -/
  | opened (fd : ℕ)
  /-- `Fs::close` -/
  | closed (fd : ℕ)
  /-- `Fs::read` or `Fs::write` -/
  | transfer (op : Op)
  /-- `handle_read` with data -/
  | data (data : Data)
  /-- `FileOutput::write` -/
  | push (data : Data)
  /-- The callback of a write. -/
  | written
deriving DecidableEq, Repr

/-- The data members that both classes have, those of one class, and what the listener keeps. -/
structure World (κ ω : Type) where
  self : κ
  owner : ω
  fd : ℕ := 0
  fsreq : Option ℕ := none
  opened : Bool := false
  active : List Request := []
  lastid : ℕ := 0
  lastfd : ℕ := 0
  /-- The callbacks of completed transfers that go on after the listener. -/
  inside : ℕ := 0
  /-- The calls of `stop` that have nothing to cancel any more. -/
  stopping : ℕ := 0
  trace : List Event := []
deriving DecidableEq, Repr

variable {κ ω σ : Type}

namespace World

def log (event : Event) (s : World κ ω) : World κ ω := { s with trace := event :: s.trace }

/-- `fsreq = Fs::..` -/
def queue (op : Op) (s : World κ ω) : World κ ω :=
  { s with active := s.active ++ [⟨s.lastid + 1, op⟩], lastid := s.lastid + 1, fsreq := some (s.lastid + 1) }

def issue (op : Op) (s : World κ ω) : World κ ω := (s.queue op).log (.transfer op)

def start (s : World κ ω) : World κ ω := (s.queue .openFile).log .start

def find (id : ℕ) (s : World κ ω) : Option Request := s.active.find? fun req => decide (req.id = id)

def drop (id : ℕ) (s : World κ ω) : World κ ω := { s with active := s.active.filter fun req => decide (req.id ≠ id) }

/-- `this->fd = fd; opened = true;` -/
def gotFd (s : World κ ω) : World κ ω :=
  { s with fd := s.lastfd + 1, lastfd := s.lastfd + 1, opened := true }.log (.opened (s.lastfd + 1))

def enter (s : World κ ω) : World κ ω := { s with inside := s.inside + 1 }

def leave (s : World κ ω) : World κ ω := { s with inside := s.inside - 1 }

def enterStop (s : World κ ω) : World κ ω := { s with stopping := s.stopping + 1 }

/-- `if (opened) Fs::close(fd, ..); opened = false;` -/
def close (s : World κ ω) : World κ ω :=
  { if s.opened = true then s.log (.closed s.fd) else s with opened := false }

/-- The end of `stop`. -/
def leaveStop (s : World κ ω) : World κ ω := { s with stopping := s.stopping - 1 }.log .stopped

end World

/-- What is called back. -/
structure Listener (σ : Type) where
  handleRead : Data → Option Err → Exec σ Unit
  handleEof : Exec σ Unit
  handleWrite : Option Err → Exec σ Unit

/-- Calls that are nested too deeply for the observation. -/
def Listener.spent : Listener σ where
  handleRead _ _ := halt .exhausted
  handleEof := halt .exhausted
  handleWrite _ := halt .exhausted

/-- `FileInput::stop` and `FileOutput::stop`; the backend gives the request back or not. -/
def stop (callback : Op → Result → Exec (World κ ω) Unit) (gives : Bool) : Exec (World κ ω) Unit := do
  let s ← get
  match s.fsreq.bind s.find, gives with
  | some req, true => do
    modify fun s => (s.drop req.id).enterStop
    callback req.op (.failed .canceled)
  | _, _ => modify World.enterStop
  modify fun s => { s with fsreq := none }
  modify fun s => s.close.leaveStop

/-- The loop runs the callback of a request. -/
def complete (callback : Op → Result → Exec (World κ ω) Unit) (id : ℕ) (res : Result) : Exec (World κ ω) Unit := do
  let s ← get
  match s.find id with
  | none => pure ()
  | some req => do
    modify (World.drop id)
    callback req.op res

/-! ### `FileInput` -/

structure Input where
  chunkSize : ℕ
  pause : Bool := false
deriving DecidableEq, Repr

namespace Input

def doRead : Exec (World Input ω) Unit := modify fun s => s.issue (.read s.fd s.self.chunkSize)

/-- The callback of `start`. -/
def opened (e : Listener (World Input ω)) : Result → Exec (World Input ω) Unit
  | .failed err => e.handleRead [] (some err)
  | .opened => do
    modify World.gotFd
    doRead
  | _ => pure ()

/-- `handle_read(data, err)` in the callback of `do_read`; after a full chunk the callback goes on. -/
def handData (e : Listener (World Input ω)) (data : Data) : Exec (World Input ω) Unit := do
  modify (World.log (.data data))
  let s ← get
  if data.length < s.self.chunkSize then e.handleRead data none
  else do
    modify World.enter
    e.handleRead data none
    modify World.leave

/-- The callback of `do_read`. -/
def read (e : Listener (World Input ω)) : Result → Exec (World Input ω) Unit
  | .failed err => e.handleRead [] (some err)
  | .data data => do
    when (data.length ≠ 0) (handData e data)
    let s ← get
    if data.length < s.self.chunkSize then e.handleEof
    else when (s.self.pause = false) doRead
  | _ => pure ()

def callback (e : Listener (World Input ω)) : Op → Result → Exec (World Input ω) Unit
  | .openFile => opened e
  | .read _ _ => read e
  | .write _ _ => fun _ => pure ()

/-- Without a request, `fsreq->active()` would dereference a null pointer. -/
def startReading : Exec (World Input ω) Unit := do
  modify fun s => { s with self := { s.self with pause := false } }
  let s ← get
  match s.fsreq with
  | none => halt .aborted
  | some id => when (s.find id = none) doRead

inductive Call (ω : Type) where
  | start
  | stop (gives : Bool)
  | startReading
  | stopReading
  /-- The listener does something of its own. -/
  | owner (new : ω)

def perform (e : Listener (World Input ω)) : Call ω → Exec (World Input ω) Unit
  | .start => modify World.start
  | .stop gives => stop (callback e) gives
  | .startReading => startReading
  | .stopReading => modify fun s => { s with self := { s.self with pause := true } }
  | .owner new => modify fun s => { s with owner := new }

end Input

/-! ### `FileOutput` -/

structure Output where
  bufs : List Data := []
  bufsz : ℕ := 0
deriving DecidableEq, Repr

namespace Output

/-- There is something to write. -/
def doWrite : Exec (World Output ω) Unit := do
  let s ← get
  match s.self.bufs with
  | [] => halt .aborted
  | front :: _ => modify (World.issue (.write s.fd front))

/-- The callback of `start`. -/
def opened (e : Listener (World Output ω)) : Result → Exec (World Output ω) Unit
  | .failed err => e.handleWrite (some err)
  | .opened => do
    modify World.gotFd
    let s ← get
    when (s.self.bufs ≠ []) doWrite
  | _ => pure ()

/-- `bufsz -= bufs.front().length(); bufs.pop_front();` -/
def pop (front : Data) (rest : List Data) (s : World Output ω) : World Output ω :=
  World.log .written { s with self := { bufs := rest, bufsz := s.self.bufsz - front.length } }

/-- The callback of `do_write`. -/
def written (e : Listener (World Output ω)) (err : Option Err) : Exec (World Output ω) Unit := do
  let s ← get
  match s.self.bufs with
  | [] => halt .aborted
  | front :: rest => do
    modify fun s => (pop front rest s).enter
    e.handleWrite err
    modify World.leave
    let s ← get
    when (s.self.bufs ≠ []) doWrite

def callback (e : Listener (World Output ω)) : Op → Result → Exec (World Output ω) Unit
  | .openFile => opened e
  | .read _ _ => fun _ => pure ()
  | .write _ _ => fun res => written e res.error

/-- `bufsz += data.length(); bufs.push_back(data);` -/
def push (data : Data) (s : World Output ω) : World Output ω :=
  World.log (.push data) { s with self := { bufs := s.self.bufs ++ [data], bufsz := s.self.bufsz + data.length } }

def write (data : Data) : Exec (World Output ω) Unit := do
  modify (push data)
  let s ← get
  when (s.self.bufs.length = 1 ∧ s.opened = true) doWrite

inductive Call (ω : Type) where
  | start
  | stop (gives : Bool)
  | write (data : Data)
  /-- The listener does something of its own. -/
  | owner (new : ω)

def perform (e : Listener (World Output ω)) : Call ω → Exec (World Output ω) Unit
  | .start => modify World.start
  | .stop gives => stop (callback e) gives
  | .write data => write data
  | .owner new => modify fun s => { s with owner := new }

end Output

/-! ### Runs -/

/-- A class: its methods, and the callback of its requests. -/
structure Class (κ ω : Type) where
  Call : Type
  perform : Listener (World κ ω) → Call → Exec (World κ ω) Unit
  callback : Listener (World κ ω) → Op → Result → Exec (World κ ω) Unit

def input (ω : Type) : Class Input ω := ⟨Input.Call ω, Input.perform, Input.callback⟩

def output (ω : Type) : Class Output ω := ⟨Output.Call ω, Output.perform, Output.callback⟩

section

variable (c : Class κ ω) (allowed : c.Call → World κ ω → Prop)

/-- A method is called where this is allowed. -/
def Move (e : Listener (World κ ω)) (s t : World κ ω) : Prop := ∃ call, allowed call s ∧ (c.perform e call s).2 = t

/-- The same, where the call comes back. -/
def Return (e : Listener (World κ ω)) (s t : World κ ω) : Prop :=
  ∃ call, allowed call s ∧ c.perform e call s = (.done (), t)

/-- Every method keeps the contract. -/
structure Listener.Keeps (Move Return : σ → σ → Prop) (e : Listener σ) : Prop where
  handleRead : ∀ data err, Makes Move Return (e.handleRead data err)
  handleEof : Makes Move Return e.handleEof
  handleWrite : ∀ err, Makes Move Return (e.handleWrite err)

/-- A listener that uses the object where this is allowed, nested to some depth. -/
inductive Tied : Listener (World κ ω) → Prop
  | spent : Tied .spent
  | layer {e inner : Listener (World κ ω)} (tied : Tied inner)
      (methods :
        e.Keeps (Relation.ReflTransGen (Move c allowed inner)) (Relation.ReflTransGen (Return c allowed inner))) :
    Tied e

/-- One turn of the loop or of the user. -/
inductive Turn (s t : World κ ω) : Prop
  | call {e : Listener (World κ ω)} (tied : Tied c allowed e) (move : Move c allowed e s t)
  | complete {e : Listener (World κ ω)} (tied : Tied c allowed e) (id : ℕ) (res : Result)
      (same : (complete (c.callback e) id res s).2 = t)

end

end UniEvent.FileEnds
