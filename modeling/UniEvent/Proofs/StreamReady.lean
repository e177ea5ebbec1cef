import UniEvent.Proofs.StreamClosed

/-! # The event loop keeps invariants, and finds every request submitted

What all code of the stream keeps holds after every run. One such invariant is that `async` is set for every request of
the queue whose `push` has ended: in the event loop, for all.
-/

namespace UniEvent.Stream

open Program Program.Exec

variable {I : List Req → State → Prop} {H : State → Prop} {X : List Req} {s t : State} {h : Members}

section Loop
variable (closed : Closed I H) (persists : Persists I H h) (logs : ∀ {X s} e, I X s → I X (s.log e))
include closed persists

theorem shutdownTimeout_persists (holds : I X s) (req : Req) : Leaves (I X) H (shutdownTimeout h req) s := by
  refine .get ?_
  split
  · refine wp_local (Local.setTimedOut _ true) fun _ t handled => ?_
    exact cancel_persists closed persists (handled.persists closed holds) (fun _ => .pure)
      fun t after => cancelMember_persists closed persists after req _
  · exact cancelMember_persists closed persists holds req _

private theorem report_persists (holds : I X s) (req : Req) (err : Option Err) :
    Leaves (I X) H (report h req err) s := by
  have freed : I X { s with active := Function.update s.active req false } := closed.frame holds rfl rfl rfl rfl
  cases req with
  | connect | write | shutdown | disconnect | runInOrder =>
    exact .modified (handleEvent_persists closed persists freed _ err).ignoring
  | accept id =>
    refine .modified (Leaves.ignoring (wp_local (Local.setConnectResult _) fun _ t handled => ?_))
    exact Leaves.bind (done_persists closed persists (handled.persists closed freed) _ _) fun _ t after =>
      persists.user after

include logs

private theorem fire_persists (holds : I X s) : Leaves (I X) H (Queue.fire h) s := by
  refine .get ?_
  split
  · exact .pure holds
  · rename_i check f split rest _
    have fired : I X (s.unpark check f) := closed.frame (logs (.fire check f) holds) rfl rfl rfl rfl
    refine .asserted holds fun _ => .modified ?_
    split
    · refine .bind (persists.call f fired).attempt fun failed t after => ?_
      split
      · exact .modified (.halt (closed.log (e := .skip t.requests t.splitPending) after trivial))
      · exact .modified (resume_persists closed persists (closed.log (e := .resume t.requests) after trivial))
    · exact persists.call f fired
  · exact .modified (persists.cancel _ _ (closed.frame holds rfl rfl rfl rfl))

private theorem perform_persists (holds : I X s) (task : Task) : Leaves (I X) H (perform h task) s := by
  cases task with
  | op op => exact runOp_persists closed persists op holds
  | complete req err => exact .get (.when holds fun _ => report_persists closed persists holds req err)
  | fire => exact fire_persists closed persists logs holds
  | connectTimer req =>
    refine .get (.when holds fun _ => wp_local (Local.stopConnectTimer req) fun _ t handled => ?_)
    exact cancelMember_persists closed persists (handled.persists closed holds) req _
  | shutdownTimer req =>
    refine .get (.when holds fun _ => wp_local (Local.stopShutdownTimer req) fun _ t handled => ?_)
    exact shutdownTimeout_persists closed persists (handled.persists closed holds) req
  | read => exact persists.user holds
  | eof =>
    refine .get (.when holds fun _ => wp_local (Local.setFlags _) fun _ t handled => ?_)
    exact persists.user (handled.persists closed holds)

end Loop

private theorem turn_persists (closed : Closed I H) (logs : ∀ {X s} e, I X s → I X (s.log e)) (holds : I X s)
    (t : Turn) : Leaves (I X) H (turn t) s := by
  refine .modified (perform_persists closed (members_persists closed t.depth) logs ?_ t.task)
  exact closed.frame (logs (.own .turn) holds) rfl rfl rfl rfl

private theorem run_persists (closed : Closed I H) (logs : ∀ {X s} e, I X s → I X (s.log e)) (ts : List Turn) :
    ∀ s, I X s → Leaves (I X) H (run ts) s := by
  induction ts with
  | nil => exact fun s holds => .pure holds
  | cons t ts ih =>
    exact fun s holds => .bind (turn_persists closed logs holds t).ignoring fun _ u after => ih u after

/-! ### Requests that are submitted -/

/-- The requests other than `X` are submitted. -/
def Ready (X : List Req) (s : State) : Prop := ∀ req ∈ s.requests, req ∉ X → s.async req = true

private theorem ready_closed : Closed Ready fun _ => True where
  frame ready _ requests async _ req member := by
    rw [async]
    exact ready req (requests ▸ member)
  log ready _ := ready
  enqueue req ready other member outside := by
    have different : other ≠ req := fun same => outside (same ▸ List.mem_cons_self)
    have old := (List.mem_append.mp member).resolve_right fun last => different (List.mem_singleton.mp last)
    refine (Function.update_of_ne different ..).trans (ready other old fun inside => ?_)
    exact outside (List.mem_cons_of_mem _ inside)
  pushed req ready other member outside := by
    by_cases same : other = req
    · rw [same]
      exact Function.update_self ..
    · refine (Function.update_of_ne same ..).trans (ready other member ?_)
      simp [same, outside]
  retire req ready other member outside := ready other (List.mem_of_mem_tail member) outside
  finish _ _ := ⟨fun _ ready => ready, fun _ ready => ready⟩
  weaker _ := trivial

theorem run_ready (ts : List Turn) (back : (run ts initial).1.Returned) : Ready [] (run ts initial).2 := by
  have left : Leaves (Ready []) (fun _ => True) (run ts) initial :=
    run_persists ready_closed (fun _ ready => ready) ts initial (by simp [Ready, initial, World.initial])
  rcases left with ready | ⟨lost, _⟩
  · exact ready
  · exact absurd back lost

end UniEvent.Stream
