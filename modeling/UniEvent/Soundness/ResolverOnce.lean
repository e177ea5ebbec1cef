import UniEvent.Proofs.ResolverTrace

/-! # Every submission is completed at most once and never lost

A callback completes the one submission that is outstanding. In a clean run a request that is running is
held by a worker, by the queue or by a delayed callback of its own.
-/

namespace UniEvent.Resolver

open Program Program.Exec

variable {s : State}

/-- A worker, the queue or a delayed callback has the request. -/
def Held (s : State) (req : Req) : Prop :=
  (∃ w, (s.workers w).request = some req) ∨ req ∈ s.queue ∨
    ∃ d, ((s.requests req).delayed, d) ∈ s.delays ∧ d.For s req

theorem PlacedBut.kept (placed : Placed s) {req : Req} (running : (s.requests req).running = true) : Held s req := by
  rcases (placed.held req running).resolve_left nofun with slot | waiting | postponed
  · exact .inl slot
  · exact .inr (.inl waiting)
  · exact .inr (.inr (placed.pending req (placed.postponed req postponed).2.2.2))

/-- In a clean run no submission is completed twice and none that is running is lost. -/
theorem run_delivers_once (cfg : Config) (ts : List Turn) (clean : Clean (run ts (initial cfg)).2) :
    Along OnceAt (run ts (initial cfg)).2.trace ∧
      ∀ req, ((run ts (initial cfg)).2.requests req).running = true → Held (run ts (initial cfg)).2 req :=
  ⟨(run_outstanding cfg ts).once, fun _ running => (run_placed cfg ts clean).kept running⟩

/-- One request waits for the answer to its query, a second one for a worker. -/
def waitingTurns : List Turn :=
  [⟨3, [], [], .op (.submit 0 ⟨['a'], [], 0, {}, true, 0⟩)⟩,
    ⟨3, [], [], .op (.submit 1 ⟨['b'], [], 0, {}, true, 0⟩)⟩]

theorem waitingTurns_delivered :
    let s := (run waitingTurns (initial { workers := 1 })).2
    Clean s ∧ (s.requests 1).running = true ∧ Held s 1 :=
  ⟨by decide, by decide, (run_delivers_once _ waitingTurns (by decide)).2 1 (by decide)⟩

/-- A request that was answered is submitted again, found in the cache, and cancels the worker that it
had, which has another request by now. -/
def resubmittedTurns : List Turn :=
  [⟨3, [], [], .op (.submit 0 ⟨['a'], [], 0, {}, true, 0⟩)⟩,
    ⟨3, [], [], .answer 0 0 (.ok ⟨1, 60⟩)⟩,
    ⟨3, [], [], .op (.submit 1 ⟨['b'], [], 0, {}, true, 0⟩)⟩,
    ⟨3, [], [], .op (.submit 0 ⟨['a'], [], 0, {}, true, 0⟩)⟩,
    ⟨3, [], [], .fire⟩]

theorem resubmittedTurns_lost :
    let s := (run resubmittedTurns (initial {})).2
    (s.requests 1).running = true ∧ ¬ Held s 1 := by
  refine ⟨by decide, ?_⟩
  rintro (⟨w, slot⟩ | waiting | ⟨d, member, _⟩)
  · have bound := (run_bounded {} resubmittedTurns).slot w 1 slot
    have empty : ∀ w < (run resubmittedTurns (initial {})).2.size,
      ((run resubmittedTurns (initial {})).2.workers w).request ≠ some 1 := by decide
    exact empty w bound slot
  · revert waiting
    decide
  · have none : (run resubmittedTurns (initial {})).2.delays = [] := by decide
    rw [none] at member
    cases member

end UniEvent.Resolver
