import Mathlib.Algebra.Ring.Nat
import UniEvent.Model.Queue
import UniEvent.Program.Reach

/-! # The streamer

`Streamer` moves data from an `IInput` to an `IOutput` and fires `finish_event` once it is done. The functions
below follow `Streamer.cc`, whatever the two ends are: an implementation of them is a value of `Ends`, whose methods
work on a state of their own and may call the streamer back while they run.

The trace is ghost, newest event first. It has the calls that the streamer gets and those that it makes.
-/

namespace UniEvent

/-- The data members of `Streamer`, other than the two ends. -/
@[ext] structure Streamer where
  maxBuf : ℕ
  thrBuf : ℕ
  nread : ℕ := 0
  nwrite : ℕ := 0
  started : Bool := false
  inread : Bool := true
  eof : Bool := false
deriving DecidableEq, Repr

namespace Streamer

open Program Program.Exec

abbrev Data := List UInt8

/-- The error codes given to `finish_event`. -/
inductive Failure where
  | readError (err : Err)
  | writeError (err : Err)
  | canceled
deriving DecidableEq, Repr

/-- `nest_error`, which returns a cancellation as it is. -/
def nestError (outer : Err → Failure) (err : Err) : Failure := if err = .canceled then .canceled else outer err

inductive Event where
  | start
  /-- `start` has reached its end. -/
  | started
  | stop
  /-- `handle_read`; without an error the data is given to `output->write` -/
  | read (data : Data) (err : Option Err)
  /-- `output->write` has returned. -/
  | written (err : Option Err)
  /-- `handle_write` -/
  | write (err : Option Err)
  /-- `handle_eof` -/
  | eof
  /-- What `output->write_queue_size()` has returned. -/
  | size (bytes : ℕ)
  /-- `input->stop_reading()` is called. -/
  | pause
  /-- `input->stop_reading()` has returned. -/
  | paused
  /-- `input->start_reading()` is called. -/
  | resume
  /-- `input->start_reading()` has returned. -/
  | resumed (err : Option Err)
  /-- `finish` starts to stop the two ends. -/
  | stopping
  /-- `finish_event` is fired. -/
  | finish (err : Option Failure)
deriving DecidableEq, Repr

/-- A streamer, and what its two ends keep. -/
structure World (ε : Type) where
  self : Streamer
  env : ε
  trace : List Event

variable {ε : Type}

/-- The methods of `IInput` and `IOutput`, and the listeners of `finish_event`. -/
structure Ends (ε : Type) where
  inputStart : Exec (World ε) (Option Err)
  inputStop : Exec (World ε) Unit
  startReading : Exec (World ε) (Option Err)
  stopReading : Exec (World ε) Unit
  outputStart : Exec (World ε) (Option Err)
  outputStop : Exec (World ε) Unit
  write : Data → Exec (World ε) (Option Err)
  writeQueueSize : ε → ℕ
  finishEvent : Option Failure → Exec (World ε) Unit

/-- Calls that are nested too deeply for the observation. -/
def Ends.spent : Ends ε where
  inputStart := halt .exhausted
  inputStop := halt .exhausted
  startReading := halt .exhausted
  stopReading := halt .exhausted
  outputStart := halt .exhausted
  outputStop := halt .exhausted
  write _ := halt .exhausted
  writeQueueSize _ := 0
  finishEvent _ := halt .exhausted

/-- `Streamer::Streamer`, with the 64 bits of `size_t`. -/
def create (maxBuf : ℕ) : Streamer where
  maxBuf
  thrBuf := maxBuf * 2 % 2 ^ 64 / 3

namespace World

def log (e : Event) (s : World ε) : World ε := { s with trace := e :: s.trace }

def setSelf (f : Streamer → Streamer) (s : World ε) : World ε := { s with self := f s.self }

/-- `nread++`, unless there is an error -/
def onRead (data : Data) (err : Option Err) (s : World ε) : World ε :=
  (s.setSelf fun self => if err = none then { self with nread := self.nread + 1 } else self).log (.read data err)

/-- `nwrite++`, unless there is an error -/
def onWrite (err : Option Err) (s : World ε) : World ε :=
  (s.setSelf fun self => if err = none then { self with nwrite := self.nwrite + 1 } else self).log (.write err)

/-- `started = true;` -/
def begin (s : World ε) : World ε := (s.setSelf fun self => { self with started := true }).log .started

/-- `inread = false;` -/
def hold (s : World ε) : World ε := (s.setSelf fun self => { self with inread := false }).log .paused

/-- `inread = true;` -/
def release (s : World ε) : World ε := (s.setSelf fun self => { self with inread := true }).log (.resumed none)

/-- `started = false; inread = true; eof = false; nread = nwrite = 0; finish_event(err);` -/
def finished (err : Option Failure) (s : World ε) : World ε :=
  (s.setSelf fun self =>
    { self with started := false, inread := true, eof := false, nread := 0, nwrite := 0 }).log (.finish err)

end World

/-- `output->write_queue_size()` -/
def queueSize (e : Ends ε) : Exec (World ε) ℕ := do
  let s ← get
  modify (World.log (.size (e.writeQueueSize s.env)))
  pure (e.writeQueueSize s.env)

def finish (e : Ends ε) (err : Option Failure) : Exec (World ε) Unit := do
  let s ← get
  when (s.self.started = true) (do
    modify (World.log .stopping)
    e.inputStop
    e.outputStop
    modify (World.finished err)
    e.finishEvent err)

def start (e : Ends ε) : Exec (World ε) Unit := do
  modify (World.log .start)
  let err ← e.inputStart
  match err with
  | some err => do
    modify (World.log (.finish (some (nestError .readError err))))
    e.finishEvent (some (nestError .readError err))
  | none => do
    let err ← e.outputStart
    match err with
    | some err => do
      e.inputStop
      modify (World.log (.finish (some (nestError .writeError err))))
      e.finishEvent (some (nestError .writeError err))
    | none => modify World.begin

def stop (e : Ends ε) : Exec (World ε) Unit := do
  modify (World.log .stop)
  finish e (some .canceled)

/-- The end of `handle_read`: `if (max_buf && output->write_queue_size() >= max_buf) ..` -/
def throttle (e : Ends ε) : Exec (World ε) Unit := do
  let s ← get
  when (s.self.maxBuf ≠ 0) (do
    let size ← queueSize e
    when (s.self.maxBuf ≤ size) (do
      modify (World.log .pause)
      e.stopReading
      modify World.hold))

def handleRead (e : Ends ε) (data : Data) (err : Option Err) : Exec (World ε) Unit := do
  modify (World.onRead data err)
  match err with
  | some err => finish e (some (nestError .readError err))
  | none => do
    let werr ← e.write data
    modify (World.log (.written werr))
    match werr with
    | some werr => finish e (some (nestError .writeError werr))
    | none => throttle e

/-- The end of `handle_write`: `if (!inread && output->write_queue_size() <= thr_buf) ..` -/
def unthrottle (e : Ends ε) : Exec (World ε) Unit := do
  let s ← get
  when (s.self.inread = false) (do
    let size ← queueSize e
    when (size ≤ s.self.thrBuf) (do
      modify (World.log .resume)
      let rerr ← e.startReading
      match rerr with
      | some rerr => do
        modify (World.log (.resumed (some rerr)))
        finish e (some (nestError .readError rerr))
      | none => modify World.release))

def handleWrite (e : Ends ε) (err : Option Err) : Exec (World ε) Unit := do
  modify (World.onWrite err)
  match err with
  | some err => finish e (some (nestError .writeError err))
  | none => do
    let s ← get
    if s.self.eof = true ∧ s.self.nwrite = s.self.nread then finish e none else unthrottle e

def handleEof (e : Ends ε) : Exec (World ε) Unit := do
  modify (World.log .eof)
  let s ← get
  if s.self.nwrite = s.self.nread then finish e none
  else modify (World.setSelf fun self => { self with eof := true })

/-! ### Runs -/

/-- What the user and the two ends call. -/
inductive Call where
  | start
  | stop
  | read (data : Data) (err : Option Err)
  | write (err : Option Err)
  | eof
deriving DecidableEq, Repr

def perform (e : Ends ε) : Call → Exec (World ε) Unit
  | .start => start e
  | .stop => stop e
  | .read data err => handleRead e data err
  | .write err => handleWrite e err
  | .eof => handleEof e

/-- The ends change what they keep, or somebody calls the streamer. -/
inductive Move (e : Ends ε) : World ε → World ε → Prop
  | env (s : World ε) (env : ε) : Move e s { s with env := env }
  | call (s : World ε) (c : Call) : Move e s (perform e c s).2

/-- The same, where the call comes back. -/
inductive Return (e : Ends ε) : World ε → World ε → Prop
  | env (s : World ε) (env : ε) : Return e s { s with env := env }
  | call (s : World ε) (c : Call) (back : (perform e c s).1 = .done ()) : Return e s (perform e c s).2

/-- Every method keeps the contract. -/
structure Ends.Keeps (Move Return : World ε → World ε → Prop) (e : Ends ε) : Prop where
  inputStart : Makes Move Return e.inputStart
  inputStop : Makes Move Return e.inputStop
  startReading : Makes Move Return e.startReading
  stopReading : Makes Move Return e.stopReading
  outputStart : Makes Move Return e.outputStart
  outputStop : Makes Move Return e.outputStop
  write : ∀ data, Makes Move Return (e.write data)
  finishEvent : ∀ err, Makes Move Return (e.finishEvent err)

/-- The methods do what they like with their own state and reach the streamer only through its calls, whose
nested methods are those of `inner`. They come back only if these calls do. -/
abbrev Ends.Over (e inner : Ends ε) : Prop :=
  e.Keeps (Relation.ReflTransGen (Move inner)) (Relation.ReflTransGen (Return inner))

/-- An input and an output, nested to some depth. -/
inductive Ends.Tied : Ends ε → Prop
  | spent : Tied .spent
  | layer {e inner : Ends ε} (tied : Tied inner) (methods : e.Over inner) : Tied e

/-- One turn of the loop or of the user, with any two ends. -/
def Turn (s t : World ε) : Prop := ∃ e : Ends ε, e.Tied ∧ Move e s t

/-- A turn that comes back. -/
def Back (s t : World ε) : Prop := ∃ e : Ends ε, e.Tied ∧ Return e s t

def initial (maxBuf : ℕ) (env : ε) : World ε where
  self := create maxBuf
  env
  trace := []

end Streamer

end UniEvent
