import UniEvent.Proofs.QueueEven
import UniEvent.Proofs.QueueRun

/-! # The counters of a queue under exceptions

The lock is as it was after every call that comes back. The recursion counter is not: the guard of `done` counts it
down only after its `resume()`, so that an exception which leaves the `exec` of the next request leaves it counted up.
If no exception leaves an `exec`, both counters are zero whenever control is in the loop.
-/

namespace UniEvent.QueueRun

open Program Program.Exec

/-- Anything but an exception that leaves `exec`. -/
def Quiet : Event ℕ Fn Note → Prop
  | .own (.execLeft _) => False
  | _ => True

instance : DecidablePred Quiet
  | .own (.execLeft _) => .isFalse id
  | .own (.left _ _) | .own (.handled _ _) => .isTrue trivial
  | .push _ | .exec _ _ | .done _ _ | .finish _ _ _ | .fire _ _ | .notify _ _ | .cancel _ | .resume _ | .skip _ _ =>
    .isTrue trivial

instance (s : State) : Decidable (Calm Quiet s) := inferInstanceAs (Decidable (∀ e ∈ s.trace, Quiet e))

section

variable {h : Members} (even : h.Even Quiet)

omit even in
private theorem nextAct_even : Even Quiet nextAct := .get fun _ => .bind (.modify fun _ => ⟨rfl, rfl⟩) fun _ => .pure _

omit even in
private theorem nextReply_even : Even Quiet nextReply :=
  .get fun _ => .bind (.modify fun _ => ⟨rfl, rfl⟩) fun _ => .pure _

include even

omit even in
private theorem noting_even {note : State → Note} {code : Exec State Unit} (inner : Even Quiet code) :
    Even Quiet (noting note code) :=
  inner.attempt.bind fun _ => .when (.bind (.log fun _ => ⟨⟨_, rfl⟩, rfl⟩) fun _ => .halt _)

theorem handleEvent_even (req : ℕ) (fails : Bool) : Even Quiet (handleEvent h req fails) := by
  refine .bind (.modify fun _ => ⟨rfl, rfl⟩) fun _ => .bind (noting_even even.user) fun _ => .get fun s => ?_
  split
  · exact Queue.cancel_even even (Queue.done_even even _ _) (.pure _) _
  · exact .bind (.log fun _ => ⟨⟨_, rfl⟩, rfl⟩) fun _ => Queue.done_even even _ _

private theorem exec_even (req : ℕ) : Even Quiet (exec h req) := by
  refine .bind nextReply_even fun reply => ?_
  cases reply with
  | sync => exact (Queue.done_even even _ _).ignoring
  | direct => exact noting_even (Queue.done_even even _ _)
  | handled fails => exact (handleEvent_even even req fails).ignoring
  | pending | ignore => exact .modify fun _ => ⟨rfl, rfl⟩

theorem cancel_even (req : ℕ) (err : Err) : Even Quiet (cancel h req err) := by
  refine .bind nextReply_even fun reply => ?_
  cases reply with
  | ignore => exact .pure _
  | handled fails => exact handleEvent_even even req fails
  | _ => exact Queue.done_even even _ _

private theorem runOp_even (op : Op) : Even Quiet (runOp h op) := by
  cases op with
  | push req => exact .get fun _ => .when (Queue.push_even even _)
  | cancel pre post till =>
    refine .get fun s => Queue.cancel_even even ?_ ?_ _
    · simp only [preStep]
      split
      · exact Queue.done_even even _ _
      · exact .pure _
    · cases post with
      | none => exact .pure _
      | user => exact even.user
      | cancelFront =>
        refine .get fun s => ?_
        split
        · exact .pure _
        · exact even.cancel _ _

theorem user_even : Even Quiet (user h) := by
  refine .bind nextAct_even fun act => ?_
  cases act with
  | ret => exact .pure _
  | throw | stop => exact .halt _
  | op op => exact .bind (runOp_even even op) fun _ => even.user

private theorem perform_even (task : Task) : Even Quiet (perform h task) := by
  cases task with
  | op op => exact runOp_even even op
  | complete req => exact .get fun _ => .when (Queue.done_even even _ _).ignoring
  | report req fails => exact .get fun _ => .when (handleEvent_even even req fails).ignoring
  | fire => exact Queue.fire_even even

end

/-- Only a completion inside `exec` throws, and that is recorded. -/
theorem exec_kept {h : Members} (req : ℕ) (s : State) :
    wp (exec h req) (fun o t => o = .halt .thrown → ¬ Calm Quiet t) s := by
  simp only [exec, nextReply, wp_bind, wp_get, wp_modify, next_done, wp_pure]
  split
  · exact fun thrown => (wp_ignoring_quiet _ _ thrown).elim
  · simp only [noting]
    rw [wp_bind]
    refine wp_mono (wp_attempt_kept _ _) ?_
    rintro (failed | why) t kept
    · rw [next_done, wp_when]
      exact ⟨fun _ _ calm => calm (.own (.execLeft req)) (.head _), fun _ => (by rintro ⟨⟩)⟩
    · exact fun thrown => (kept (congrArg Outcome.halt (Outcome.halt.inj thrown))).elim
  · exact fun thrown => (wp_ignoring_quiet _ _ thrown).elim
  · rintro ⟨⟩
  · rintro ⟨⟩

private theorem members_even (n : ℕ) : (members n).Even Quiet := by
  induction n with
  | zero => exact .spent
  | succ n ih =>
    exact
      { exec := exec_even ih
        kept := exec_kept
        cancel := cancel_even ih
        notify := fun _ _ => user_even ih
        call := fun _ => user_even ih
        user := user_even ih }

private theorem run_even (ts : List Turn) : Even Quiet (run ts) := by
  induction ts with
  | nil => exact .pure _
  | cons t ts ih =>
    refine .bind (.ignoring (.bind (.modify fun _ => ⟨rfl, rfl⟩) fun _ => ?_)) fun _ => ih
    exact perform_even (members_even t.depth) t.task

/-- If no exception leaves the `exec` of a request, then both counters are zero after every turn. -/
theorem run_counters (ts : List Turn) (returned : (run ts initial).1.Returned) (calm : Calm Quiet (run ts initial).2) :
    (run ts initial).2.locked = 0 ∧ (run ts initial).2.resumeRecursion = 0 :=
  ⟨((run_ok ts initial initial_idle).2 returned).free, (run_even ts initial).even returned calm⟩

/-- Two requests are completed; the callback of the first one throws, and the second one is executed after it. -/
def thrownTurns : List Turn :=
  [⟨6, {}, .op (.push 1)⟩, ⟨6, {}, .op (.push 2)⟩, ⟨6, { script := [.throw] }, .complete 1⟩,
    ⟨6, { replies := [.sync] }, .complete 2⟩]

theorem thrownTurns_counters : Calm Quiet (run thrownTurns initial).2 ∧
    (run thrownTurns initial).2.locked = 0 ∧ (run thrownTurns initial).2.resumeRecursion = 0 := by
  have calm : Calm Quiet (run thrownTurns initial).2 := by decide +kernel
  exact ⟨calm, run_counters thrownTurns (by decide +kernel) calm⟩

/-- The first request is completed, and the code of the second one, which is run by its `exec`, throws. -/
def codeTurns : List Turn :=
  [⟨6, {}, .op (.push 1)⟩, ⟨6, {}, .op (.push 2)⟩, ⟨6, { script := [.ret, .throw], replies := [.direct] }, .complete 1⟩]

theorem codeTurns_counters : (run codeTurns initial).1 = .done () ∧ (run codeTurns initial).2.requests = [] ∧
    (run codeTurns initial).2.locked = 0 ∧ (run codeTurns initial).2.resumeRecursion = 1 := by
  decide +kernel

end UniEvent.QueueRun
