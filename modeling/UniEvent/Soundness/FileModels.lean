import UniEvent.Model.FileEnds
import UniEvent.Model.StreamerFiles
import UniEvent.Program.View

/-! # The files of a streamer are files

`FileInput` and `FileOutput` stand in two models: between a streamer and a disk, and by themselves with any listener.
From states that agree on the members of the object and on the request that it waits for, the methods and the callbacks
do the same in both, with listeners that do so. `stop` is not compared: each backend answers a cancel in its own way.
-/

namespace UniEvent.Streamer.Files

open Program Program.Exec

variable {κ ω : Type} {s : World Env} {o : Op} {p : FileEnds.Op} {res : Result} {got : FileEnds.Result}

/-- The operations of one of the classes, as they are by themselves. -/
def inputOp : Op → Option FileEnds.Op
  | .openInput => some .openFile
  | .read fd size => some (.read fd size)
  | _ => none

def outputOp : Op → Option FileEnds.Op
  | .openOutput => some .openFile
  | .write fd data => some (.write fd data)
  | _ => none

/-- The members that both classes have are the same, and so is the request, if it is active; new requests have new
names. -/
structure Shows (op : Op → Option FileEnds.Op) (env : Env) (fd : ℕ) (fsreq : Option ℕ) (opened : Bool)
    (t : FileEnds.World κ ω) : Prop where
  fd : t.fd = fd
  opened : t.opened = opened
  request : t.fsreq.map (fun id => (t.find id).map fun req => some req.op) =
    fsreq.map fun id => (env.active id).map fun work => op work.op
  known : ∀ work ∈ env.works, work.id ≤ env.lastid
  fresh : ∀ req ∈ t.active, req.id ≤ t.lastid

def SameInput (s : World Env) (t : FileEnds.World FileEnds.Input ω) : Prop :=
  Shows inputOp s.env s.env.input.fd s.env.input.fsreq s.env.input.opened t ∧
    t.self = ⟨s.env.input.chunkSize, s.env.input.pause⟩

def SameOutput (s : World Env) (t : FileEnds.World FileEnds.Output ω) : Prop :=
  Shows outputOp s.env s.env.output.fd s.env.output.fsreq s.env.output.opened t ∧
    t.self = ⟨s.env.output.bufs, s.env.output.bufsz⟩

/-- The result of a request in both models; a descriptor is the next one. -/
def Result.Gives (t : FileEnds.World κ ω) : Result → FileEnds.Result → Prop
  | .opened fd, .opened => t.lastfd + 1 = fd
  | .data bytes, .data got => got = bytes
  | .ok, .ok => True
  | .failed err, .failed why => why = err
  | _, _ => False

/-! ### Requests -/

section

variable {op : Op → Option FileEnds.Op} {env : Env} {fd : ℕ} {fsreq : Option ℕ} {opened : Bool}
  {t : FileEnds.World κ ω} (same : Shows op env fd fsreq opened t)

private theorem find_new {α : Type} {f : α → ℕ} {l : List α} {x : α} (fresh : ∀ y ∈ l, f y < f x) :
    (l ++ [x]).find? (fun y => decide (f y = f x)) = some x := by
  rw [List.find?_append, List.find?_eq_none.mpr fun y among => by simpa using Nat.ne_of_lt (fresh y among)]
  simp

include same

/-- The object makes a request. -/
theorem Shows.queue (mine : op o = some p) (event : FileEnds.Event) :
    Shows op { env with works := env.works ++ [⟨env.lastid + 1, o, none⟩], lastid := env.lastid + 1 } fd
      (some (env.lastid + 1)) opened ((t.queue p).log event) where
  fd := same.fd
  opened := same.opened
  request := by
    have left := find_new (x := (⟨t.lastid + 1, p⟩ : FileEnds.Request)) (f := (·.id)) fun req among =>
      Nat.lt_succ_of_le (same.fresh req among)
    have right := find_new (x := (⟨env.lastid + 1, o, none⟩ : Work)) (f := (·.id)) fun work among =>
      Nat.lt_succ_of_le (same.known work among)
    simp only [FileEnds.World.queue, FileEnds.World.log, FileEnds.World.find, Env.active, Option.map_some, left, right,
      mine]
  known work among := by
    rcases List.mem_append.mp among with old | new
    · exact Nat.le_succ_of_le (same.known work old)
    · rw [List.mem_singleton.mp new]
  fresh req among := by
    rcases List.mem_append.mp among with old | new
    · exact Nat.le_succ_of_le (same.fresh req old)
    · rw [List.mem_singleton.mp new]
      exact Nat.le_refl _

/-- The request is there in both, or in none. -/
theorem Shows.cases : t.fsreq = none ∧ fsreq = none ∨
    ∃ i j, t.fsreq = some i ∧ fsreq = some j ∧ (t.find i = none ↔ env.active j = none) := by
  have request := same.request
  cases left : t.fsreq <;> cases right : fsreq <;> simp_all
  rw [← Option.map_eq_none_iff, request, Option.map_eq_none_iff]

end

/-! ### `FileInput` -/

section

variable {e : Ends Env} {l : FileEnds.Listener (FileEnds.World FileEnds.Input ω)}

theorem doRead_mirrors : Mirrors (SameInput (ω := ω)) doRead FileEnds.Input.doRead := by
  rintro s t ⟨same, self⟩
  refine ⟨rfl, { same.queue (o := .read s.env.input.fd s.env.input.chunkSize) ?_ _ with }, self⟩
  rw [same.fd, self]
  rfl

theorem inputStart_mirrors : Mirrors (SameInput (ω := ω)) inputStart (do modify FileEnds.World.start; pure none) := by
  rintro s t ⟨same, self⟩
  exact ⟨rfl, { same.queue (o := .openInput) rfl _ with }, self⟩

theorem startReading_mirrors :
    Mirrors (SameInput (ω := ω)) startReading (do FileEnds.Input.startReading; pure none) := by
  simp only [FileEnds.Input.startReading, Program.bind_assoc]
  refine .bind (.modify fun s t same => ⟨{ same.1 with }, ?_⟩) fun _ => .get_bind fun s t same => ?_
  · rw [same.2]
  · rcases same.1.cases with ⟨left, right⟩ | ⟨i, j, left, right, idle⟩
    · rw [left, right]
      exact .halt .aborted
    · rw [left, right]
      exact .bind (.when idle.symm doRead_mirrors) fun _ => .pure none

theorem stopReading_mirrors (l : FileEnds.Listener (FileEnds.World FileEnds.Input ω)) :
    Mirrors SameInput stopReading (FileEnds.Input.perform l .stopReading) :=
  .modify fun s t same => ⟨{ same.1 with }, by rw [same.2]⟩

variable (reads : ∀ data err, Mirrors SameInput (handleRead e data err) (l.handleRead data err))
  (eof : Mirrors SameInput (handleEof e) l.handleEof)

include reads eof

private theorem inputRead_mirrors (data : Data) :
    Mirrors SameInput (inputRead e (.data data)) (FileEnds.Input.read l (.data data)) := by
  have hands : Mirrors SameInput (handleRead e data none) (FileEnds.Input.handData l data) := by
    refine .skip_right (fun _ _ same => ⟨{ same.1 with }, same.2⟩) fun s t same => ?_
    rw [bind_apply, Exec.get]
    dsimp only
    split
    · exact reads data none s t same
    · exact Mirrors.skip_right (fun _ _ same => ⟨{ same.1 with }, same.2⟩) ((reads data none).symm.then_skip
        fun _ _ same => ⟨rfl, { same.1 with }, same.2⟩).symm s t same
  refine .bind (.when Iff.rfl hands) fun _ => .get_bind fun s t same => ?_
  rw [same.2]
  exact .ite Iff.rfl eof (.when Iff.rfl doRead_mirrors)

/-- The callbacks of `start` and `do_read`. -/
theorem inputCallback_mirrors {t : FileEnds.World FileEnds.Input ω} (same : SameInput s t) (mine : inputOp o = some p)
    (given : res.Gives t got) : (FileEnds.Input.callback l p got t).1 = (callback e o res s).1 ∧
      SameInput (callback e o res s).2 (FileEnds.Input.callback l p got t).2 := by
  cases o <;> cases mine <;> cases res <;> cases got <;> cases given
  all_goals first
    | exact ⟨rfl, same⟩
    | exact reads _ _ s t same
    | exact inputRead_mirrors reads eof _ s t same
    | skip
  exact Mirrors.bind_at (m := modifyEnv _) (n := modify _) ⟨rfl, { same.1 with fd := rfl, opened := rfl }, same.2⟩
    fun _ => doRead_mirrors

end

/-! ### `FileOutput` -/

section

variable {e : Ends Env} {l : FileEnds.Listener (FileEnds.World FileEnds.Output ω)}

theorem doWrite_mirrors : Mirrors (SameOutput (ω := ω)) doWrite FileEnds.Output.doWrite := by
  refine .get_bind fun s t same => ?_
  rw [same.2, same.1.fd]
  dsimp only
  cases s.env.output.bufs with
  | nil => exact .halt .aborted
  | cons front rest => exact fun s t same => ⟨rfl, { same.1.queue (o := .write _ front) rfl _ with }, same.2⟩

theorem outputStart_mirrors :
    Mirrors (SameOutput (ω := ω)) outputStart (do modify FileEnds.World.start; pure none) := by
  rintro s t ⟨same, self⟩
  exact ⟨rfl, { same.queue (o := .openOutput) rfl _ with }, self⟩

theorem write_mirrors (data : Data) : Mirrors (SameOutput (ω := ω)) (write data)
    (do FileEnds.Output.write data; pure none) := by
  simp only [FileEnds.Output.write, Program.bind_assoc]
  refine .bind (.modify fun s t same => ⟨{ same.1 with }, ?_⟩) fun _ => .get_bind fun s t same => ?_
  · rw [FileEnds.Output.push, FileEnds.World.log, same.2]
  · rw [same.2, same.1.opened]
    exact .bind (.when Iff.rfl doWrite_mirrors) fun _ => .pure none

variable (writes : ∀ err, Mirrors SameOutput (handleWrite e err) (l.handleWrite err))

include writes

private theorem outputWritten_mirrors (err : Option Err) :
    Mirrors SameOutput (outputWritten e err) (FileEnds.Output.written l err) := by
  refine .get_bind fun s t same => ?_
  rw [same.2]
  dsimp only
  cases s.env.output.bufs with
  | nil => exact .halt .aborted
  | cons front rest =>
    refine .bind (.modify fun s t same => ⟨{ same.1 with }, ?_⟩) fun _ => .bind (writes err) fun _ =>
      .skip_right (fun _ _ same => ⟨{ same.1 with }, same.2⟩) (.get_bind fun s t same => ?_)
    · rw [FileEnds.World.enter, FileEnds.Output.pop, FileEnds.World.log, same.2]
    · rw [same.2]
      exact .when Iff.rfl doWrite_mirrors

/-- The callbacks of `start` and `do_write`. -/
theorem outputCallback_mirrors {t : FileEnds.World FileEnds.Output ω} (same : SameOutput s t)
    (mine : outputOp o = some p) (given : res.Gives t got) :
    (FileEnds.Output.callback l p got t).1 = (callback e o res s).1 ∧
      SameOutput (callback e o res s).2 (FileEnds.Output.callback l p got t).2 := by
  cases o <;> cases mine <;> cases res <;> cases got <;> cases given
  all_goals first
    | exact ⟨rfl, same⟩
    | exact writes _ s t same
    | exact outputWritten_mirrors writes _ s t same
    | skip
  refine Mirrors.bind_at (m := modifyEnv _) (n := modify _) ⟨rfl, { same.1 with fd := rfl, opened := rfl }, same.2⟩
    fun _ => .get_bind fun s t same => ?_
  rw [same.2]
  exact .when Iff.rfl doWrite_mirrors

end

end UniEvent.Streamer.Files
