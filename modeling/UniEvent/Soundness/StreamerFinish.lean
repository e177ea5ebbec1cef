import UniEvent.Proofs.StreamerFiles
import UniEvent.Proofs.StreamerPhase

/-! # A streamer finishes once

`finish` clears `started` only after it has stopped the two ends. An end that reports the cancellation of its
operation while it is being stopped gets into `finish` again, and `finish_event` is fired for both. Without such
reports, and with data and acknowledgements only while the streamer runs, it is fired once for each start.
-/

namespace UniEvent.Streamer

open Program Program.Exec Relation

variable {ε : Type}

instance (event : Event) (before : List Event) : Decidable (FinishAt event before) := by
  apply Event.casesOn (motive := fun event => Decidable (FinishAt event before)) <;> intros <;>
    unfold FinishAt <;> infer_instance

/-- With any two ends, a clean run fires `finish_event` at most once for each start, and with success if and only if
everything was read and acknowledged. -/
theorem turns_finish_once {maxBuf : ℕ} {env : ε} {s : World ε} (path : ReflTransGen Turn (initial maxBuf env) s)
    (clean : Clean s) : Along FinishAt s.trace := (turns_inv path clean).finishes

namespace Files

/-- A file is copied; the second start is stopped when the thread pool is already at work. -/
def copyTurns : List Turn :=
  [{ task := .start }, { task := .execute 1 none }, { task := .complete 1 }, { task := .execute 3 none },
    { task := .execute 2 none }, { task := .complete 3 }, { task := .complete 2 }, { task := .execute 4 none },
    { task := .complete 4 }, { task := .start }, { task := .stop, cancels := [false, false] }]

theorem copyTurns_finish :
    (run copyTurns (initial 100 10 [1, 2, 3] none)).2.env.reports.map Report.status = [some .canceled, none] ∧
      Along FinishAt (run copyTurns (initial 100 10 [1, 2, 3] none)).2.trace := by
  -- named, so that the final state is not computed where it need not be
  generalize same : (run copyTurns (initial 100 10 [1, 2, 3] none)).2 = s
  constructor
  · rw [← same]
    decide +kernel
  · apply turns_finish_once
    · rw [← same]
      exact run_turns 100 10 [1, 2, 3] none copyTurns
    · rw [← same]
      decide +kernel

/-- The streamer is stopped while both files are being opened. -/
def stoppedTurns : List Turn := [{ task := .start }, { task := .stop }]

/-- The last chunk pauses the input, and the first acknowledgement resumes it behind the end of the file. -/
def extraTurns : List Turn :=
  [{ task := .start }, { task := .execute 1 none }, { task := .complete 1 }, { task := .execute 3 none },
    { task := .complete 3 }, { task := .execute 4 none }, { task := .complete 4 }, { task := .execute 2 none },
    { task := .complete 2 }, { task := .execute 5 none }, { task := .complete 5 }, { task := .execute 7 none },
    { task := .complete 7 }]

/-- `finish_event` is fired three times after one start, and with an error after everything was read and
acknowledged. -/
theorem stoppedTurns_finish :
    let s := (run stoppedTurns (initial 100 10 [1, 2, 3] none)).2
    let t := (run extraTurns (initial 3 2 [1, 2, 3] none)).2
    s.env.reports.map Report.status = [some .canceled, some .canceled, some .canceled] ∧
      ¬ Along FinishAt s.trace ∧
      t.env.reports = [⟨none, some [1, 2, 3], true⟩, ⟨some .canceled, some [1, 2, 3], true⟩] ∧
      ¬ Along FinishAt t.trace := by
  decide +kernel

end Files

end UniEvent.Streamer
