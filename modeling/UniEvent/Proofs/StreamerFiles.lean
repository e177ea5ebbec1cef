import UniEvent.Model.StreamerFiles
import UniEvent.Proofs.StreamerCalls

/-! # Files are two ends of a streamer

The methods of `FileInput` and `FileOutput` work on their own state and call the streamer, so that what holds with
any two ends holds with files.
-/

namespace UniEvent.Streamer.Files

open Program Program.Exec Relation

/-! ### What a method does

A method changes what the ends keep, but neither the disk nor the reports, and calls the streamer. A contract that
allows this is kept by the method.
-/

section

variable {e : Ends Env} {M R : World Env → World Env → Prop} [Std.Refl M] [Std.Refl R] [IsTrans _ M] [IsTrans _ R]
  (plain : ∀ f : Env → Env, (∀ env, (f env).disk = env.disk ∧ (f env).reports = env.reports) → Makes M R (modifyEnv f))

include plain

theorem queue_makes (op : Op) : Makes M R (queue op) :=
  .get fun _ => .bind (plain _ fun _ => ⟨rfl, rfl⟩) fun _ => .pure _

theorem doRead_makes : Makes M R doRead :=
  .get fun _ => .bind (queue_makes plain _) fun _ => plain _ fun _ => ⟨rfl, rfl⟩

theorem doWrite_makes : Makes M R doWrite := by
  refine .get fun s => ?_
  split
  · exact .halt _
  · exact .bind (queue_makes plain _) fun _ => plain _ fun _ => ⟨rfl, rfl⟩

theorem startReading_makes : Makes M R startReading := by
  refine .bind (plain _ fun _ => ⟨rfl, rfl⟩) fun _ => .get fun s => ?_
  split
  · exact .halt _
  · exact .bind (.when (doRead_makes plain)) fun _ => .pure _

theorem write_makes (data : Data) : Makes M R (write data) :=
  .bind (plain _ fun _ => ⟨rfl, rfl⟩) fun _ => .get fun _ => .bind (.when (doWrite_makes plain)) fun _ => .pure _

section

variable (canceled : ∀ op, Makes M R (callback e op (.failed .canceled)))

include canceled

private theorem cancel_makes (fsreq : Option ℕ) : Makes M R (cancel e fsreq) := by
  refine .get fun s => ?_
  split
  · exact .pure ()
  · exact .when (.bind (plain _ fun _ => ⟨rfl, rfl⟩) fun _ => .when (.bind (plain _ fun _ => ⟨rfl, rfl⟩) fun _ =>
      canceled _))

theorem inputStop_makes : Makes M R (inputStop e) :=
  .get fun _ => .bind (cancel_makes plain canceled _) fun _ => .bind (plain _ fun _ => ⟨rfl, rfl⟩) fun _ =>
    .get fun _ => .bind (.when (.bind (queue_makes plain _) fun _ => .pure ())) fun _ => plain _ fun _ => ⟨rfl, rfl⟩

theorem outputStop_makes : Makes M R (outputStop e) :=
  .get fun _ => .bind (cancel_makes plain canceled _) fun _ => .bind (plain _ fun _ => ⟨rfl, rfl⟩) fun _ =>
    .get fun _ => .bind (.when (.bind (queue_makes plain _) fun _ => .pure ())) fun _ => plain _ fun _ => ⟨rfl, rfl⟩

end

variable (read : ∀ data err, Makes M R (handleRead e data err)) (write : ∀ err, Makes M R (handleWrite e err))
  (eof : Makes M R (handleEof e))

include read write eof

theorem callback_makes (op : Op) (res : Result) : Makes M R (callback e op res) := by
  cases op with
  | openInput =>
    cases res with
    | failed err => exact read [] (some err)
    | opened fd => exact .bind (plain _ fun _ => ⟨rfl, rfl⟩) fun _ => doRead_makes plain
    | data | ok => exact .pure ()
  | read =>
    cases res with
    | failed err => exact read [] (some err)
    | data data =>
      refine .bind (.when (read data none)) fun _ => .get fun s => ?_
      split
      · exact eof
      · exact .when (doRead_makes plain)
    | opened | ok => exact .pure ()
  | openOutput =>
    cases res with
    | failed err => exact write (some err)
    | opened fd => exact .bind (plain _ fun _ => ⟨rfl, rfl⟩) fun _ => .get fun _ => .when (doWrite_makes plain)
    | data | ok => exact .pure ()
  | write =>
    refine .get fun s => ?_
    split
    · exact .halt _
    · exact .bind (plain _ fun _ => ⟨rfl, rfl⟩) fun _ => .bind (write _) fun _ => .get fun _ =>
        .when (doWrite_makes plain)
  | close => exact .pure ()

theorem complete_makes (id : ℕ) : Makes M R (complete e id) := by
  refine .get fun s => ?_
  split
  · exact .bind (plain _ fun _ => ⟨rfl, rfl⟩) fun _ => callback_makes plain read write eof _ _
  · exact .pure ()

end

/-! ### Calls of the streamer -/

/-- The program only changes what the ends keep and calls the streamer. -/
abbrev Acts {ε α : Type} (inner : Ends ε) (m : Exec (World ε) α) : Prop :=
  Makes (ReflTransGen (Move inner)) (ReflTransGen (Return inner)) m

theorem call_acts {ε : Type} {inner : Ends ε} (c : Call) : Acts inner (perform inner c) :=
  fun s => ⟨.single (.call s c), fun _ back => .single (.call s c back)⟩

private theorem modifyEnv_acts {inner : Ends Env} (f : Env → Env) : Acts inner (modifyEnv f) :=
  .modify (fun s => .single (.env s _)) fun s => .single (.env s _)

private theorem callback_acts {inner : Ends Env} (op : Op) (res : Result) : Acts inner (callback inner op res) :=
  callback_makes (fun f _ => modifyEnv_acts f) (fun data err => call_acts (.read data err))
    (fun err => call_acts (.write err)) (call_acts .eof) op res

private theorem ends_tied (n : ℕ) : (ends n).Tied := by
  induction n with
  | zero => exact .spent
  | succ n ih =>
    have plain (f : Env → Env) (_ : ∀ env, (f env).disk = env.disk ∧ (f env).reports = env.reports) :
        Acts (ends n) (modifyEnv f) := modifyEnv_acts f
    exact .layer ih
      { inputStart := .bind (queue_makes plain _) fun _ => .bind (modifyEnv_acts _) fun _ => .pure _
        inputStop := inputStop_makes plain fun _ => callback_acts _ _
        startReading := startReading_makes plain
        stopReading := modifyEnv_acts _
        outputStart := .bind (queue_makes plain _) fun _ => .bind (modifyEnv_acts _) fun _ => .pure _
        outputStop := outputStop_makes plain fun _ => callback_acts _ _
        write := write_makes plain
        finishEvent := fun _ => modifyEnv_acts _ }

private theorem task_acts (e : Ends Env) (t : Task) : Acts e (task e t) := by
  cases t with
  | start => exact call_acts .start
  | stop => exact call_acts .stop
  | execute id fail => exact modifyEnv_acts _
  | complete id =>
    exact complete_makes (fun f _ => modifyEnv_acts f) (fun data err => call_acts (.read data err))
      (fun err => call_acts (.write err)) (call_acts .eof) id

private theorem turn_makes (t : Turn) : Makes (ReflTransGen Streamer.Turn) (ReflTransGen Back) (turn t) := by
  have acts : Acts (ends t.depth) (turn t) := .bind (modifyEnv_acts _) fun _ => task_acts _ _
  refine acts.mono (fun s u path => ?_) fun s u path => ?_
  · exact ReflTransGen.mono (r := Move (ends t.depth)) (p := Streamer.Turn) (fun _ _ move => ⟨_, ends_tied _, move⟩) s u
      path
  · exact ReflTransGen.mono (r := Return (ends t.depth)) (p := Back) (fun _ _ back => ⟨_, ends_tied _, back⟩) s u path

private theorem turn_steps (t : Turn) : Steps Streamer.Turn (turn t) := fun s => (turn_makes t s).1

/-- A run with files in which every call comes back. -/
theorem turns_back (ts : List Turn) : Makes (ReflTransGen Streamer.Turn) (ReflTransGen Back) (ts.forM turn) := by
  induction ts with
  | nil => exact .pure ()
  | cons t ts ih => exact .bind (turn_makes t) fun _ => ih

private theorem run_steps (ts : List Turn) : Steps Streamer.Turn (run ts) := by
  induction ts with
  | nil => exact .pure ()
  | cons t ts ih => exact .bind (.ignoring (turn_steps t)) fun _ => ih

/-- A run with files is a run of the streamer. -/
theorem run_turns (maxBuf chunkSize : ℕ) (source : Data) (target : Option Data) (ts : List Turn) :
    ReflTransGen Streamer.Turn (initial maxBuf chunkSize source target)
      (run ts (initial maxBuf chunkSize source target)).2 := run_steps ts _

end UniEvent.Streamer.Files
