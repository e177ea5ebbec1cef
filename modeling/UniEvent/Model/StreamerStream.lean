import UniEvent.Model.Streamer

/-! # A stream as the output of a streamer

`StreamOutput`, after `streamer/Stream.cc`. The stream is written to by the output and by other code, and reports its
writes one after another, each to the listener that it has at that time. The output tells its own writes apart only
until the first of them is reported.

The input is any: its methods, like the listeners of `finish_event`, do what they like with a state of their own,
write to the stream and call the streamer back.
-/

namespace UniEvent.Streamer.ToStream

open Program Program.Exec

/-- A `WriteRequest` of the stream. -/
structure Wreq where
  id : ℕ
  data : Data
  /-- Ghost: it has a chunk of the run that the streamer is in. -/
  own : Bool
deriving DecidableEq, Repr

/-- Ghost: the counts at the time of a `finish_event`. -/
structure Report where
  status : Option Failure
  handed : ℕ
  completed : ℕ
deriving DecidableEq, Repr

/-- The data of the input, the stream, and the data members of `StreamOutput`. -/
structure Link (ι : Type) where
  input : ι
  /-- The writes that the stream has not reported yet, oldest first. -/
  queue : List Wreq := []
  /-- The number of writes ever made. -/
  made : ℕ := 0
  /-- `stream->event_listener()` is the output. -/
  listening : Bool := false
  /-- `prev_lst` is the output. -/
  prevLst : Bool := false
  firstWreq : Option ℕ := none
  handleWriteStarted : Bool := false
  /-- Ghost: the chunks handed to `write` since the start. -/
  handed : ℕ := 0
  /-- Ghost: the chunks of this run whose write has completed successfully. -/
  completed : ℕ := 0
  /-- Ghost: other code has written to the stream after the first chunk of a run and before its end. -/
  mixed : Bool := false
  /-- Ghost: the runs that have ended, newest first. -/
  reports : List Report := []
deriving DecidableEq, Repr

variable {ι : Type}

namespace Link

/-- `stream->write(data)` -/
def push (data : Data) (own : Bool) (l : Link ι) : Link ι :=
  { l with queue := l.queue ++ [⟨l.made, data, own⟩], made := l.made + 1 }

/-- A write of other code. -/
def other (data : Data) (l : Link ι) : Link ι := { l.push data false with mixed := l.mixed || l.firstWreq.isSome }

/-- A run begins, for the ghost counts. -/
def fresh (l : Link ι) : Link ι := { l with handed := 0, completed := 0 }

def start (l : Link ι) : Link ι := { l with prevLst := l.listening, listening := true }

def write (data : Data) (l : Link ι) : Link ι :=
  { l.push data true with firstWreq := l.firstWreq.or (some l.made), handed := l.handed + 1 }

def stop (l : Link ι) : Link ι :=
  { l with
    listening := l.prevLst
    firstWreq := none
    handleWriteStarted := false
    queue := l.queue.map fun wreq => { wreq with own := false } }

/-- `stream->write_queue_size()` -/
def writeQueueSize (l : Link ι) : ℕ := (l.queue.map fun wreq => wreq.data.length).sum

/-- The stream takes its oldest write from the queue. -/
def pop (wreq : Wreq) (rest : List Wreq) (err : Option Err) (l : Link ι) : Link ι :=
  { l with queue := rest, completed := l.completed + if wreq.own = true ∧ err = none then 1 else 0 }

def record (err : Option Failure) (l : Link ι) : Link ι :=
  { l with reports := ⟨err, l.handed, l.completed⟩ :: l.reports }

end Link

def setEnv (f : Link ι → Link ι) (s : World (Link ι)) : World (Link ι) := { s with env := f s.env }

/-- The output of the streamer is the stream. Of `e` only the input and the listeners of `finish_event` are used. -/
def ends (e : Ends (Link ι)) : Ends (Link ι) where
  inputStart := do
    modify (setEnv Link.fresh)
    e.inputStart
  inputStop := e.inputStop
  startReading := e.startReading
  stopReading := e.stopReading
  outputStart := do
    modify (setEnv Link.start)
    pure none
  outputStop := modify (setEnv Link.stop)
  write data := do
    modify (setEnv (Link.write data))
    pure none
  writeQueueSize := Link.writeQueueSize
  finishEvent err := do
    modify (setEnv (Link.record err))
    e.finishEvent err

/-- `StreamOutput::on_write` -/
def onWrite (e : Ends (Link ι)) (err : Option Err) (wreq : Wreq) : Exec (World (Link ι)) Unit := do
  let s ← get
  if s.env.handleWriteStarted = true then handleWrite (ends e) err
  else
    when (s.env.firstWreq = some wreq.id) (do
      modify (setEnv fun l => { l with handleWriteStarted := true })
      handleWrite (ends e) err)

/-- The oldest write of the stream is completed, and the listener of the stream is told. -/
def report (e : Ends (Link ι)) (err : Option Err) : Exec (World (Link ι)) Unit := do
  let s ← get
  match s.env.queue with
  | [] => pure ()
  | wreq :: rest => do
    modify (setEnv (Link.pop wreq rest err))
    when (s.env.listening = true) (onWrite e err wreq)

/-! ### Runs -/

/-- What the input and the user do: `handle_write` is left to the output. -/
inductive Move (e : Ends (Link ι)) : World (Link ι) → World (Link ι) → Prop
  | input (s : World (Link ι)) (new : ι) : Move e s (setEnv (fun l => { l with input := new }) s)
  | other (s : World (Link ι)) (data : Data) : Move e s (setEnv (Link.other data) s)
  | call (s : World (Link ι)) (c : Call) (apart : ∀ err, c ≠ .write err) : Move e s (perform (ends e) c s).2

/-- The same, where the call comes back. -/
inductive Return (e : Ends (Link ι)) : World (Link ι) → World (Link ι) → Prop
  | input (s : World (Link ι)) (new : ι) : Return e s (setEnv (fun l => { l with input := new }) s)
  | other (s : World (Link ι)) (data : Data) : Return e s (setEnv (Link.other data) s)
  | call (s : World (Link ι)) (c : Call) (apart : ∀ err, c ≠ .write err) (back : (perform (ends e) c s).1 = .done ()) :
    Return e s (perform (ends e) c s).2

/-- An input and listeners of `finish_event`, nested to some depth. -/
inductive Tied : Ends (Link ι) → Prop
  | spent : Tied .spent
  | layer {e inner : Ends (Link ι)} (tied : Tied inner)
      (methods : e.Keeps (Relation.ReflTransGen (Move inner)) (Relation.ReflTransGen (Return inner))) : Tied e

/-- One turn of the loop or of the user. -/
inductive Turn : World (Link ι) → World (Link ι) → Prop
  | move {e : Ends (Link ι)} (tied : Tied e) {s t : World (Link ι)} (move : Move e s t) : Turn s t
  | report {e : Ends (Link ι)} (tied : Tied e) (s : World (Link ι)) (err : Option Err) : Turn s (report e err s).2

def initial (maxBuf : ℕ) (input : ι) : World (Link ι) := Streamer.initial maxBuf { input }

end UniEvent.Streamer.ToStream
