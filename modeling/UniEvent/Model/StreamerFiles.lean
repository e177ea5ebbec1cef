import UniEvent.Model.Streamer

/-! # Files as the two ends of a streamer

`FileInput` and `FileOutput`, after `streamer/File.cc`. An operation on a file is queued for the thread pool, which
performs it at some later time; after that the loop runs its callback. `Work::cancel` asks the backend to give the
operation back, and if it does, the callback runs at once with `operation_canceled`.

The thread pool, the loop and the backend are scripted. The listener of `finish_event` looks at the output file.
Descriptors are never used twice.
-/

namespace UniEvent.Streamer.Files

open Program Program.Exec

inductive Op where
  | openInput
  | read (fd size : ℕ)
  /-- with `O_TRUNC` and `O_CREAT` -/
  | openOutput
  | write (fd : ℕ) (data : Data)
  | close (fd : ℕ)
deriving DecidableEq, Repr

inductive Result where
  | opened (fd : ℕ)
  | data (data : Data)
  | ok
  | failed (err : Err)
deriving DecidableEq, Repr

/-- An `Fs::Request` that is active; `result` is set once the thread pool has performed it. -/
structure Work where
  id : ℕ
  op : Op
  result : Option Result := none
deriving DecidableEq, Repr

/-! ### The file system -/

structure Disk where
  /-- The content of the input file. -/
  source : Data
  /-- The output file, if it exists. -/
  target : Option Data
  /-- The output file was opened. -/
  created : Bool := false
  /-- The positions of the descriptors that are open. -/
  fds : ℕ → Option ℕ := fun _ => none
  lastfd : ℕ := 0

namespace Disk

def badFd : Err := .other 9

def openFd (d : Disk) : Result × Disk :=
  (.opened (d.lastfd + 1), { d with fds := Function.update d.fds (d.lastfd + 1) (some 0), lastfd := d.lastfd + 1 })

def seek (fd pos : ℕ) (d : Disk) : Disk := { d with fds := Function.update d.fds fd (some pos) }

/-- A read returns less than it was asked for only at the end, and a write writes everything. -/
def perform (d : Disk) : Op → Result × Disk
  | .openInput => d.openFd
  | .openOutput => { d with target := some [], created := true }.openFd
  | .read fd size =>
    match d.fds fd with
    | none => (.failed badFd, d)
    | some pos => (.data ((d.source.drop pos).take size), d.seek fd (pos + ((d.source.drop pos).take size).length))
  | .write fd data =>
    match d.fds fd with
    | none => (.failed badFd, d)
    | some pos =>
      let old := d.target.getD []
      (.ok, { d with target := some (old.take pos ++ data ++ old.drop (pos + data.length)) }.seek fd
        (pos + data.length))
  | .close fd => (.ok, { d with fds := Function.update d.fds fd none })

/-- The operation may fail, and does nothing then. -/
def execute (d : Disk) (op : Op) : Option Err → Result × Disk
  | some err => (.failed err, d)
  | none => d.perform op

end Disk

/-! ### The two ends -/

structure Input where
  chunkSize : ℕ
  fd : ℕ := 0
  fsreq : Option ℕ := none
  opened : Bool := false
  pause : Bool := false
deriving DecidableEq, Repr

structure Output where
  fd : ℕ := 0
  fsreq : Option ℕ := none
  opened : Bool := false
  bufs : List Data := []
  bufsz : ℕ := 0
deriving DecidableEq, Repr

/-- What the listener of `finish_event` gets and sees. -/
structure Report where
  status : Option Failure
  target : Option Data
  created : Bool
deriving DecidableEq, Repr

structure Env where
  input : Input
  output : Output := {}
  works : List Work := []
  lastid : ℕ := 0
  disk : Disk
  /-- Whether the backend gives the next operation back that it is asked for. -/
  cancels : List Bool := []
  reports : List Report := []

def modifyEnv (f : Env → Env) : Exec (World Env) Unit := modify fun s => { s with env := f s.env }

def Env.active (id : ℕ) (env : Env) : Option Work := env.works.find? fun work => decide (work.id = id)

def Env.drop (id : ℕ) (env : Env) : Env := { env with works := env.works.filter fun work => decide (work.id ≠ id) }

/-- `Fs::open`, `Fs::read`, `Fs::write` and `Fs::close` -/
def queue (op : Op) : Exec (World Env) ℕ := do
  let s ← get
  modifyEnv fun env => { env with works := env.works ++ [⟨env.lastid + 1, op, none⟩], lastid := env.lastid + 1 }
  pure (s.env.lastid + 1)

/-- `FileInput::do_read` -/
def doRead : Exec (World Env) Unit := do
  let s ← get
  let id ← queue (.read s.env.input.fd s.env.input.chunkSize)
  modifyEnv fun env => { env with input := { env.input with fsreq := some id } }

/-- `FileOutput::do_write`; there is something to write. -/
def doWrite : Exec (World Env) Unit := do
  let s ← get
  match s.env.output.bufs with
  | [] => halt .aborted
  | front :: _ => do
    let id ← queue (.write s.env.output.fd front)
    modifyEnv fun env => { env with output := { env.output with fsreq := some id } }

/-- The callback of `FileInput::start`. -/
def inputOpened (e : Ends Env) : Result → Exec (World Env) Unit
  | .failed err => handleRead e [] (some err)
  | .opened fd => do
    modifyEnv fun env => { env with input := { env.input with fd := fd, opened := true } }
    doRead
  | _ => pure ()

/-- The callback of `FileInput::do_read`. -/
def inputRead (e : Ends Env) : Result → Exec (World Env) Unit
  | .failed err => handleRead e [] (some err)
  | .data data => do
    when (data.length ≠ 0) (handleRead e data none)
    let s ← get
    if data.length < s.env.input.chunkSize then handleEof e
    else when (s.env.input.pause = false) doRead
  | _ => pure ()

/-- The callback of `FileOutput::start`. -/
def outputOpened (e : Ends Env) : Result → Exec (World Env) Unit
  | .failed err => handleWrite e (some err)
  | .opened fd => do
    modifyEnv fun env => { env with output := { env.output with fd := fd, opened := true } }
    let s ← get
    when (s.env.output.bufs ≠ []) doWrite
  | _ => pure ()

/-- The callback of `FileOutput::do_write`. -/
def outputWritten (e : Ends Env) (err : Option Err) : Exec (World Env) Unit := do
  let s ← get
  match s.env.output.bufs with
  | [] => halt .aborted
  | front :: rest => do
    modifyEnv fun env => { env with output :=
      { env.output with bufs := rest, bufsz := env.output.bufsz - front.length } }
    handleWrite e err
    let s ← get
    when (s.env.output.bufs ≠ []) doWrite

def callback (e : Ends Env) (op : Op) (res : Result) : Exec (World Env) Unit :=
  match op with
  | .openInput => inputOpened e res
  | .read _ _ => inputRead e res
  | .openOutput => outputOpened e res
  | .write _ _ => outputWritten e (match res with
    | .failed err => some err
    | _ => none)
  | .close _ => pure ()

/-- `if (fsreq) fsreq->cancel();` with `Work::cancel`; the backend does not give back what it has performed. -/
def cancel (e : Ends Env) (fsreq : Option ℕ) : Exec (World Env) Unit := do
  let s ← get
  match fsreq.bind s.env.active with
  | none => pure ()
  | some work => when (work.result = none) (do
    modifyEnv fun env => { env with cancels := env.cancels.tail }
    when (s.env.cancels.headD true = true) (do
      modifyEnv (Env.drop work.id)
      callback e work.op (.failed .canceled)))

def inputStop (e : Ends Env) : Exec (World Env) Unit := do
  let s ← get
  cancel e s.env.input.fsreq
  modifyEnv fun env => { env with input := { env.input with fsreq := none } }
  let s ← get
  when (s.env.input.opened = true) (do
    let _ ← queue (.close s.env.input.fd)
    pure ())
  modifyEnv fun env => { env with input := { env.input with opened := false } }

def outputStop (e : Ends Env) : Exec (World Env) Unit := do
  let s ← get
  cancel e s.env.output.fsreq
  modifyEnv fun env => { env with output := { env.output with fsreq := none } }
  let s ← get
  when (s.env.output.opened = true) (do
    let _ ← queue (.close s.env.output.fd)
    pure ())
  modifyEnv fun env => { env with output := { env.output with opened := false } }

def inputStart : Exec (World Env) (Option Err) := do
  let id ← queue .openInput
  modifyEnv fun env => { env with input := { env.input with fsreq := some id } }
  pure none

def outputStart : Exec (World Env) (Option Err) := do
  let id ← queue .openOutput
  modifyEnv fun env => { env with output := { env.output with fsreq := some id } }
  pure none

/-- Without a request, `fsreq->active()` would dereference a null pointer. -/
def startReading : Exec (World Env) (Option Err) := do
  modifyEnv fun env => { env with input := { env.input with pause := false } }
  let s ← get
  match s.env.input.fsreq with
  | none => halt .aborted
  | some id => do
    when (s.env.active id = none) doRead
    pure none

def stopReading : Exec (World Env) Unit :=
  modifyEnv fun env => { env with input := { env.input with pause := true } }

def write (data : Data) : Exec (World Env) (Option Err) := do
  modifyEnv fun env => { env with output :=
    { env.output with bufsz := env.output.bufsz + data.length, bufs := env.output.bufs ++ [data] } }
  let s ← get
  when (s.env.output.bufs.length = 1 ∧ s.env.output.opened = true) doWrite
  pure none

def finishEvent (err : Option Failure) : Exec (World Env) Unit :=
  modifyEnv fun env => { env with reports := ⟨err, env.disk.target, env.disk.created⟩ :: env.reports }

def ends : ℕ → Ends Env
  | 0 => .spent
  | n + 1 =>
    { inputStart
      inputStop := inputStop (ends n)
      startReading
      stopReading
      outputStart
      outputStop := outputStop (ends n)
      write
      writeQueueSize := fun env => env.output.bufsz
      finishEvent }

/-! ### Runs -/

inductive Task where
  | start
  | stop
  /-- The thread pool performs an operation, or fails to. -/
  | execute (id : ℕ) (fail : Option Err)
  /-- The loop runs the callback of an operation that was performed. -/
  | complete (id : ℕ)
deriving DecidableEq, Repr

def Env.execute (id : ℕ) (fail : Option Err) (env : Env) : Env :=
  match env.active id with
  | some ⟨_, op, none⟩ =>
    { env with
      disk := (env.disk.execute op fail).2
      works := env.works.map fun work =>
        if work.id = id then { work with result := some (env.disk.execute op fail).1 } else work }
  | _ => env

def complete (e : Ends Env) (id : ℕ) : Exec (World Env) Unit := do
  let s ← get
  match s.env.active id with
  | some ⟨_, op, some res⟩ => do
    modifyEnv (Env.drop id)
    callback e op res
  | _ => pure ()

def task (e : Ends Env) : Task → Exec (World Env) Unit
  | .start => start e
  | .stop => stop e
  | .execute id fail => modifyEnv (Env.execute id fail)
  | .complete id => complete e id

structure Turn where
  depth : ℕ := 5
  cancels : List Bool := []
  task : Task

def turn (t : Turn) : Exec (World Env) Unit := do
  modifyEnv fun env => { env with cancels := t.cancels }
  task (ends t.depth) t.task

def run : List Turn → Exec (World Env) Unit
  | [] => pure ()
  | t :: ts => do
    ignoring (turn t)
    run ts

def initial (maxBuf chunkSize : ℕ) (source : Data) (target : Option Data) : World Env :=
  Streamer.initial maxBuf { input := { chunkSize := chunkSize }, disk := { source := source, target := target } }

end UniEvent.Streamer.Files
