import UniEvent.Proofs.StreamerFiles
import UniEvent.Proofs.StreamerPhase

/-! # A streamer that has finished

Only `finish` looks at `started`. A chunk or an acknowledgement that comes when the streamer has finished is counted,
and the chunk is written; every other call changes nothing. If no such call comes, and the input is paused only while
the streamer runs, the fields are those of a new streamer whenever it does not run.
-/

namespace UniEvent.Streamer

open Program Program.Exec Relation

variable {ε : Type} {e : Ends ε} {s t : World ε}

/-- The streamer is as it was, and `output->write` was not called. -/
structure Inert (s t : World ε) : Prop where
  self : t.self = s.self
  writes : ∀ events, t.trace = events ++ s.trace → ∀ data, .read data none ∉ events

/-- A chunk or an acknowledgement. -/
def Call.counts : Call → Bool
  | .read _ none | .write none => true
  | _ => false

theorem inert_log {event : Event} (other : ∀ data, event ≠ .read data none) : Inert s (s.log event) := by
  refine ⟨rfl, fun events trace data member => ?_⟩
  have same : events = [event] := List.append_cancel_right (trace.symm.trans (List.singleton_append).symm)
  rw [same] at member
  exact other data (List.mem_singleton.mp member).symm

private theorem finish_idle (idle : s.self.started = false) (err : Option Failure) :
    finish e err s = (.done (), s) := by
  change when (s.self.started = true) _ s = _
  rw [when, if_neg (by rw [idle]; exact (by rintro ⟨⟩))]
  rfl

/-- An acknowledgement is counted, and nothing else happens. -/
theorem handleWrite_idle (rests : Rests s) (inread : s.self.inread = true) :
    handleWrite e none s = (.done (), s.onWrite none) := by
  have more : ¬ (s.self.eof = true ∧ s.self.nwrite + 1 = s.self.nread) := by
    rw [rests.eof]
    exact fun both => nomatch both.1
  change (if s.self.eof = true ∧ s.self.nwrite + 1 = s.self.nread then finish e none else unthrottle e)
    (s.onWrite none) = _
  rw [if_neg more]
  change when (s.self.inread = false) _ (s.onWrite none) = _
  rw [when, if_neg (by rw [inread]; exact (by rintro ⟨⟩))]
  rfl

/-- The end of the input is not noted. -/
theorem handleEof_idle (rests : Rests s) : handleEof e s = (.done (), s.log .eof) := by
  change (if s.self.nwrite = s.self.nread then finish e none
    else modify (World.setSelf fun self => { self with eof := true })) (s.log .eof) = _
  rw [if_pos (rests.nwrite.trans rests.nread.symm)]
  exact finish_idle (s := s.log .eof) rests.started none

/-- What a call does to a streamer that does not run. -/
theorem late_inert_iff (tied : e.Tied) (rests : Rests s) (inread : s.self.inread = true) {c : Call}
    (late : c ≠ .start) : Inert s (perform e c s).2 ↔ c.counts = false := by
  have failed (event : Event) (failure : Failure) : finish e (some failure) (s.log event) = (.done (), s.log event) :=
    finish_idle (s := s.log event) rests.started _
  cases c with
  | start => exact absurd rfl late
  | stop =>
    have same : perform e .stop s = (.done (), s.log .stop) := failed .stop .canceled
    rw [same]
    exact ⟨fun _ => rfl, fun _ => inert_log nofun⟩
  | eof =>
    have same : perform e .eof s = (.done (), s.log .eof) := handleEof_idle rests
    rw [same]
    exact ⟨fun _ => rfl, fun _ => inert_log nofun⟩
  | read data err =>
    cases err with
    | some err =>
      have same : perform e (.read data (some err)) s = (.done (), s.log (.read data (some err))) := failed _ _
      rw [same]
      exact ⟨fun _ => rfl, fun _ => inert_log nofun⟩
    | none =>
      refine ⟨fun inert => ?_, nofun⟩
      obtain ⟨events, trace⟩ := (perform_enters (tied_grows tied) (.read data none) s).trace
      refine absurd (inert.writes (events ++ [.read data none]) ?_ data) fun absent => absent (by simp)
      rw [List.append_assoc]
      exact trace.symm
  | write err =>
    cases err with
    | some err =>
      have same : perform e (.write (some err)) s = (.done (), s.log (.write (some err))) := failed _ _
      rw [same]
      exact ⟨fun _ => rfl, fun _ => inert_log nofun⟩
    | none =>
      refine ⟨fun inert => ?_, nofun⟩
      have same : perform e (.write none) s = (.done (), s.onWrite none) := handleWrite_idle rests inread
      rw [same] at inert
      have counted : s.self.nwrite + 1 = s.self.nwrite := congrArg Streamer.nwrite inert.self
      omega

/-- In a clean run that pauses the input only while it runs, a streamer that does not run is like a new one, and a
call that comes late changes nothing if and only if it is neither a chunk nor an acknowledgement. -/
theorem turns_inert_iff {maxBuf : ℕ} {env : ε} (path : ReflTransGen Turn (initial maxBuf env) s) (clean : Clean s)
    (held : Along HoldAt s.trace) (idle : phase s.trace = .idle) : s.self = create maxBuf ∧
      ∀ e : Ends ε, e.Tied → ∀ c : Call, c ≠ .start → (Inert s (perform e c s).2 ↔ c.counts = false) := by
  have rests := (turns_inv path clean).resting (.inl idle)
  have grows := turns_grow path
  refine ⟨?_, fun e tied c late => late_inert_iff tied rests (rests.inread held) late⟩
  rw [Streamer.ext_iff]
  exact ⟨grows.maxBuf, grows.thrBuf, rests.nread, rests.nwrite, rests.started, rests.inread held, rests.eof⟩

namespace Files

/-- The streamer is stopped while both files are being opened, and the backend keeps the operations, which fail
later. -/
def refusedTurns : List Turn :=
  [{ task := .start }, { task := .stop, cancels := [false, false] }, { task := .execute 1 (some .brokenPipe) },
    { task := .complete 1 }, { task := .execute 2 (some .brokenPipe) }, { task := .complete 2 }]

theorem refusedTurns_inert :
    (run refusedTurns (initial 100 10 [1, 2, 3] none)).2.env.reports.map Report.status = [some .canceled] ∧
      (run refusedTurns (initial 100 10 [1, 2, 3] none)).2.self = create 100 := by
  generalize same : (run refusedTurns (initial 100 10 [1, 2, 3] none)).2 = s
  constructor
  · rw [← same]
    decide +kernel
  · have path := run_turns 100 10 [1, 2, 3] none refusedTurns
    rw [same] at path
    refine (turns_inert_iff path ?_ ?_ ?_).1
    all_goals
      rw [← same]
      decide +kernel

/-- The streamer is stopped while a chunk is being written and the next one read. -/
def lateTurns : List Turn :=
  [{ task := .start }, { task := .execute 1 none }, { task := .execute 2 none }, { task := .complete 2 },
    { task := .complete 1 }, { task := .execute 3 none }, { task := .complete 3 }, { task := .execute 4 none },
    { task := .execute 5 none }, { task := .stop }, { task := .complete 4 }]

/-- The chunk is acknowledged after `finish_event`, and counted. -/
theorem lateTurns_not_inert :
    let s := (run lateTurns (initial 100 2 [1, 2, 3] none)).2
    phase s.trace = .idle ∧ s.env.reports.map Report.status = [some .canceled] ∧ s.self.nwrite = 1 ∧
      s.self ≠ create 100 := by
  decide +kernel

end Files

end UniEvent.Streamer
