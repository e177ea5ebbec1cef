import UniEvent.Proofs.ResolverDebt

/-! # No worker is idle while requests wait

Only the guard of a completion looks at the queue. It gives its worker a request whenever one waits, so that
between two calls nobody is owed one. A run that is clean can break this in one way: the callback of a request
that the loop answers from the cache throws, and the exception leaves the loop while others still wait.
-/

namespace UniEvent.Resolver

open Program Program.Exec

structure Conserving (s : State) : Prop where
  limit : s.size ≤ s.cfg.workers
  busy : s.queue ≠ [] → s.size = s.cfg.workers ∧ ∀ w < s.size, (s.workers w).request ≠ none

/-- Between two calls of a clean run no worker is idle while requests wait, unless an exception left the loop
over the queue. -/
theorem run_conserves (cfg : Config) (ts : List Turn) (back : (run ts (initial cfg)).1 = .done ())
    (clean : Clean (run ts (initial cfg)).2) (left : Along LeftAt (run ts (initial cfg)).2.trace) :
    Conserving (run ts (initial cfg)).2 := by
  have none : Debt (fun _ => False) (initial cfg) := fun _ _ => .empty rfl
  have debt := (run_settled ts (initial cfg) (Outcome.returned_of_eq back)).debt _ (initial_sound cfg) none
  refine ⟨(run_sound cfg ts).limit, fun waiting => ?_⟩
  exact (debt clean left waiting).imp_right fun owed w bound free => owed w bound free

/-- A callback throws while two requests wait for the only worker. -/
def throwingTurns : List Turn :=
  [⟨4, [], [], .op (.submit 0 ⟨['a'], [], 0, {}, true, 0⟩)⟩,
    ⟨4, [], [], .op (.submit 1 ⟨['b'], [], 0, {}, true, 0⟩)⟩,
    ⟨4, [], [], .op (.submit 2 ⟨['c'], [], 0, {}, true, 0⟩)⟩,
    ⟨4, [.throw], [], .answer 0 0 (.ok ⟨1, 60⟩)⟩]

theorem throwingTurns_conserve :
    let s := (run throwingTurns (initial { workers := 1 })).2
    Clean s ∧ s.queue = [2] ∧ (s.workers 0).request = some 1 ∧ Conserving s :=
  ⟨by decide, by decide, by decide, run_conserves _ throwingTurns (by decide) (by decide) (by decide)⟩

/-- The callback of a request that the loop answers from the cache throws while another one waits. -/
def leftTurns : List Turn :=
  [⟨4, [], [], .op (.submit 0 ⟨['a'], [], 0, {}, true, 0⟩)⟩,
    ⟨4, [], [], .op (.submit 1 ⟨['a'], [], 0, {}, true, 0⟩)⟩,
    ⟨4, [], [], .op (.submit 2 ⟨['b'], [], 0, {}, true, 0⟩)⟩,
    ⟨4, [.ret, .throw], [], .answer 0 0 (.ok ⟨1, 60⟩)⟩]

theorem leftTurns_idle :
    (run leftTurns (initial { workers := 1 })).1 = .done () ∧
    ¬ Conserving (run leftTurns (initial { workers := 1 })).2 := by
  refine ⟨by decide, fun conserving => ?_⟩
  have busy := (conserving.busy (by decide)).2 0 (by decide)
  revert busy
  decide

end UniEvent.Resolver
