import UniEvent.Model.FsRequest
import UniEvent.Program.Machine
import Mathlib.Data.List.Chain

/-! # What a callback of a reused request is told

A callback gets the error of its own operation, or else the error that the request still has. That is the error of the
previous report, and only if the callback of that report threw (`Told`): the lines that clear the members come after the
callback. So the reports of a request are about their own operations exactly when no callback throws on the error of its
operation just before an operation that goes well (`State.reports_own_iff`).
-/

namespace UniEvent.FsRequest

variable {δ τ φ : Type}

namespace Report

/-- The error of the operation itself. -/
def ownErr (report : Report δ τ φ) : Option Err :=
  match report.ret with
  | none => some .canceled
  | some ret =>
    match result δ τ φ report.op.kind ret with
    | .ok _ => none
    | .error err => some err

/-- The operation failed or was canceled. -/
def Failed (report : Report δ τ φ) : Prop := report.ownErr ≠ none

/-- The report is about its own operation: the error is the one of the operation, and without one the value is what the
operation returned. -/
def Owns (report : Report δ τ φ) : Prop :=
  report.err = report.ownErr ∧
    (report.err = none → ∃ ret, report.ret = some ret ∧ result δ τ φ report.op.kind ret = .ok report.value)

end Report

/-- The error that a request is left with after its reports. -/
def left : List (Report δ τ φ) → Option Err
  | [] => none
  | last :: _ => if last.threw then last.err else none

/-- What the request tells: the error of the operation or the one that was left, and the value that was returned. -/
def Told : List (Report δ τ φ) → Prop
  | [] => True
  | last :: earlier =>
    last.err = last.ownErr.or (left earlier) ∧
      (∀ ret value, last.ret = some ret → result δ τ φ last.op.kind ret = .ok value → last.value = value) ∧ Told earlier

/-- A callback that threw on the error of its operation was not followed by an operation that went well. -/
def Report.Covers (later earlier : Report δ τ φ) : Prop := earlier.Failed → earlier.threw → later.Failed

/-- What was told is about the operation itself as long as nothing was left before it. -/
theorem Told.owns_iff {last : Report δ τ φ} {earlier : List (Report δ τ φ)} (told : Told (last :: earlier)) :
    last.Owns ↔ last.Failed ∨ left earlier = none := by
  obtain ⟨err, value, -⟩ := told
  cases own : last.ownErr with
  | some code =>
    rw [own, Option.some_or] at err
    refine ⟨fun _ => Or.inl (by simp [Report.Failed, own]), fun _ => ⟨by rw [err, own], ?_⟩⟩
    simp [err]
  | none =>
    rw [own, Option.none_or] at err
    obtain ⟨ret, returned, fine⟩ : ∃ ret, last.ret = some ret ∧ ∃ v, result δ τ φ last.op.kind ret = .ok v := by
      unfold Report.ownErr at own
      split at own
      · cases own
      · rename_i ret returned
        split at own
        · rename_i v fine
          exact ⟨ret, returned, v, fine⟩
        · cases own
    obtain ⟨v, fine⟩ := fine
    constructor
    · intro owns
      right
      rw [← err, owns.1, own]
    · rintro (failed | nothing)
      · exact absurd own failed
      · refine ⟨by rw [err, nothing, own], fun _ => ⟨ret, returned, ?_⟩⟩
        rw [fine, value ret v returned fine]

/-- A report about its own operation leaves an error only by a failure and a callback that throws. -/
theorem left_eq_none {last : Report δ τ φ} {earlier : List (Report δ τ φ)} (owns : last.Owns) :
    left (last :: earlier) = none ↔ (last.Failed → last.threw → False) := by
  change (if last.threw then last.err else none) = none ↔ _
  rw [owns.1]
  cases threw : last.threw with
  | false => simp
  | true => simp [Report.Failed]

/-- The reports are about their own operations exactly when none fails to cover the one before it. -/
theorem Told.all_iff {reports : List (Report δ τ φ)} (told : Told reports) :
    (∀ report ∈ reports, report.Owns) ↔ reports.IsChain Report.Covers := by
  induction reports with
  | nil => simp
  | cons last earlier ih =>
    have own := told.owns_iff
    have rest := ih told.2.2
    rw [List.forall_mem_cons, rest]
    cases earlier with
    | nil => simp [own, left]
    | cons before earlier =>
      rw [List.isChain_cons_cons]
      refine and_congr_left fun chain => ?_
      have owns : before.Owns := rest.mpr chain _ List.mem_cons_self
      rw [own, left_eq_none owns, Report.Covers]
      tauto

/-- A saved value is the one that the callback is given. -/
theorem Request.given_save (r : Request δ τ φ) (kind : Kind) (value : kind.Value δ τ φ) :
    (r.save kind value).given kind = value := by
  cases kind <;> rfl

/-- Saving a value leaves the error. -/
theorem Request.save_err (r : Request δ τ φ) (kind : Kind) (value : kind.Value δ τ φ) :
    (r.save kind value).err = r.err := by
  cases kind <;> rfl

/-- The members hold what the call of `op` returned, over the error that was left. -/
def Holds (r : Request δ τ φ) (op : Op) (ret : op.kind.Ret δ τ φ) (before : Option Err) : Prop :=
  match result δ τ φ op.kind ret with
  | .ok value => r.err = before ∧ r.given op.kind = value
  | .error err => r.err = some err

private theorem work_holds (r : Request δ τ φ) (op : Op) (ret : op.kind.Ret δ τ φ) :
    Holds (r.work op.kind ret) op ret r.err := by
  unfold Holds Request.work
  cases result δ τ φ op.kind ret with
  | ok value => exact ⟨r.save_err op.kind value, r.given_save op.kind value⟩
  | error err => rfl

namespace State

/-- What the members hold, by the phase. -/
def Ready (s : State δ τ φ) : Prop :=
  match s.phase with
  | .idle | .queued _ => s.req.err = left s.reports
  | .worked op ret => Holds s.req op ret (left s.reports)

/-- What holds between the steps. -/
def Honest (s : State δ τ φ) : Prop := Told s.reports ∧ s.Ready

/-- The error after a report is the one that the report leaves. -/
theorem handleAfterWork_ready (s : State δ τ φ) (op : Op) (ret : Option (op.kind.Ret δ τ φ)) (err : Option Err)
    (threw : Bool) : (s.handleAfterWork op ret err threw).Ready := by
  change ((s.req.arrive err).clear threw).err = if threw then (s.req.arrive err).err else none
  unfold Request.clear
  cases threw <;> rfl

private theorem canceled_honest {s : State δ τ φ} (honest : s.Honest) (op : Op) (threw : Bool) :
    (s.handleAfterWork op none (some .canceled) threw).Honest :=
  ⟨⟨rfl, by simp, honest.1⟩, s.handleAfterWork_ready op none _ threw⟩

private theorem worked_honest {s : State δ τ φ} (told : Told s.reports) {op : Op} {ret : op.kind.Ret δ τ φ}
    (holds : Holds s.req op ret (left s.reports)) (threw : Bool) :
    (s.handleAfterWork op (some ret) none threw).Honest := by
  refine ⟨⟨?_, ?_, told⟩, s.handleAfterWork_ready op (some ret) none threw⟩
  · change s.req.err = Option.or (Report.ownErr ⟨op, some ret, _, _, _⟩) _
    unfold Holds at holds
    unfold Report.ownErr
    cases fine : result δ τ φ op.kind ret with
    | ok value =>
      rw [fine] at holds
      simpa [fine] using holds.1
    | error code =>
      rw [fine] at holds
      simpa [fine] using holds
  · rintro other value ⟨⟩ fine
    unfold Holds at holds
    rw [fine] at holds
    exact holds.2

theorem step_honest {s t : State δ τ φ} {move : Move δ τ φ} (honest : s.Honest) (step : s.step move = some t) :
    t.Honest := by
  have whole := honest
  obtain ⟨told, ready⟩ := honest
  unfold Ready at ready
  cases move with
  | setFd fd =>
    simp only [State.step] at step
    split at step <;> cases step
    rename_i idle
    rw [idle] at ready
    exact ⟨told, by rw [Ready, idle]; exact ready⟩
  | issue op =>
    simp only [State.step] at step
    split at step <;> cases step
    rename_i idle
    rw [idle] at ready
    exact ⟨told, ready⟩
  | work os =>
    simp only [State.step] at step
    split at step <;> cases step
    rename_i op queued
    rw [queued] at ready
    have holds := work_holds s.req op (os op s.req.fd)
    rw [ready] at holds
    exact ⟨told, holds⟩
  | afterWork threw =>
    simp only [State.step] at step
    split at step <;> cases step
    rename_i op ret worked
    rw [worked] at ready
    exact worked_honest told ready threw
  | cancel threw =>
    simp only [State.step] at step
    split at step <;> cases step
    · exact canceled_honest whole _ threw
    · exact whole
    · exact whole

private theorem honest_run {s t : State δ τ φ} {moves : List (Move δ τ φ)} (honest : s.Honest)
    (run : s.run moves = some t) : t.Honest :=
  Program.foldlM_invariant (fun _ _ _ => step_honest) honest run

variable [Inhabited τ] [Inhabited φ]

private theorem fresh_honest : (fresh : State δ τ φ).Honest := ⟨trivial, rfl⟩

/-- The reports of a request are about their own operations exactly when no callback threw on the failure of its
operation just before an operation that went well. -/
theorem reports_own_iff {s : State δ τ φ} {moves : List (Move δ τ φ)} (run : fresh.run moves = some s) :
    (∀ report ∈ s.reports, report.Owns) ↔ s.reports.IsChain Report.Covers :=
  (honest_run fresh_honest run).1.all_iff

end State

/-- An operating system that has no directories. -/
def bare : (op : Op) → ℕ → op.kind.Ret Unit ℕ ℕ := fun op _ =>
  match op.kind with
  | .bool => false
  | .void | .stat | .str | .pathFd | .dirEntries | .fd | .fsInfo | .size => Except.error (.other 2)

/-- An operating system where all goes well. -/
def ample : (op : Op) → ℕ → op.kind.Ret Unit ℕ ℕ := fun op fd =>
  match op.kind with
  | .bool => true
  | .void => Except.ok ()
  | .stat | .fsInfo | .size => Except.ok (7 : ℕ)
  | .fd => Except.ok (fd + 1)
  | .str => Except.ok ""
  | .pathFd => Except.ok ("", fd + 1)
  | .dirEntries => Except.ok []

/-- A `stat` that fails with a callback that throws, a `rename` that is canceled, and an `open` that goes well. -/
def failedTwice : List (Move Unit ℕ ℕ) :=
  [.issue .stat, .work bare, .afterWork true, .issue .rename, .cancel false, .issue .open, .work ample, .afterWork true]

theorem failedTwice_owns :
    ∃ s, State.fresh.run failedTwice = some s ∧ s.reports.map Report.err = [none, some .canceled, some (.other 2)] ∧
      ∀ report ∈ s.reports, report.Owns := by
  have covered : State.fresh.run failedTwice = some _ := rfl
  refine ⟨_, covered, rfl, (State.reports_own_iff covered).mpr (.cons_cons ?_ (.cons_cons ?_ (.singleton _)))⟩
  · rintro - ⟨⟩
  · rintro - - ⟨⟩

/-- An `rmdir` that fails with a callback that throws, and an `exists`. -/
def staleError : List (Move Unit ℕ ℕ) :=
  [.issue .rmdir, .work bare, .afterWork true, .issue .exists, .work ample, .afterWork false]

theorem staleError_not_owns :
    ∃ s, State.fresh.run staleError = some s ∧ ∃ report ∈ s.reports,
      report.op = .exists ∧ report.ownErr = none ∧ report.err = some (.other 2) ∧ ¬ report.Owns := by
  refine ⟨_, rfl, _, List.mem_cons_self, rfl, rfl, rfl, ?_⟩
  rintro ⟨same, -⟩
  cases same

end UniEvent.FsRequest
