import UniEvent.Program.Log
import UniEvent.Proofs.QueueRun

/-! # Serial execution

A queue exists to run its requests one after another. Read off the trace of a run, `SerialExec` says
that every call of `exec` was made on the front of `requests`, for the first time since that request
was pushed, and while no other request of the queue had been executed.

Four places start a request. `push`, the guard of `done` and the end of `cancel` do so only when
nothing waiting has been executed. The callback of a split completion ends with a `resume()` that
does not ask: a request pushed by the closure before it, or by anyone while the callback was
scheduled, is executed by its push and then again. A run is serial exactly when no split callback
ends in front of an executed request.
-/

namespace UniEvent

open Program

variable {ρ φ η ε : Type} [DecidableEq ρ]

/-- An `exec` is of the front request, the first since its push, with nothing else under way. -/
def SerialAt : Event ρ φ η → List (Event ρ φ η) → Prop
  | .exec req requests, before =>
    requests.head? = some req ∧ execs before req = 0 ∧ ∀ other ∈ requests, other ≠ req → execs before other = 0
  | _, _ => True

/-- A `resume()` that ends a split callback finds no front, or one that was not executed. -/
def SplitFreshAt : Event ρ φ η → List (Event ρ φ η) → Prop
  | .resume requests, before => ∀ req ∈ requests.head?, execs before req = 0
  | _, _ => True

instance (e : Event ρ φ η) (before : List (Event ρ φ η)) : Decidable (SerialAt e before) := by
  apply Event.casesOn (motive := fun e => Decidable (SerialAt e before)) <;> intros <;>
    unfold SerialAt <;> infer_instance

abbrev SerialExec : List (Event ρ φ η) → Prop := Along SerialAt

abbrev SplitsFresh : List (Event ρ φ η) → Prop := Along SplitFreshAt

variable {s : World ρ φ η ε} {req : ρ}

/-- An execution of a front that nothing precedes is serial. -/
theorem serialExec_exec (wf : Wf s) (atFront : s.requests.head? = some req) :
    SerialExec (s.log (.exec req s.requests)).trace ↔ SerialExec s.trace ∧ ¬ s.Started req := by
  have others : ∀ other ∈ s.requests, other ≠ req → execs s.trace other = 0 := by
    intro other member ne
    by_contra started
    exact ne (wf.front_eq atFront member (Nat.pos_of_ne_zero started))
  simp only [World.log_trace, along_cons, SerialAt, World.Started, Nat.pos_iff_ne_zero, not_not]
  constructor
  · rintro ⟨⟨_, first, _⟩, before⟩
    exact ⟨before, first⟩
  · rintro ⟨before, first⟩
    exact ⟨⟨atFront, first, others⟩, before⟩

/-- One move adds the same to both sides: what is executed outside a split callback is fresh. -/
theorem Step.serial_iff {Own : Owner ρ φ η ε}
    (ownKeeps : ∀ s t : World ρ φ η ε, Own.Moves s t →
      (SerialExec t.trace ↔ SerialExec s.trace) ∧ (SplitsFresh t.trace ↔ SplitsFresh s.trace))
    {s t : World ρ φ η ε} (step : Step Own s t) (wf : Wf s)
    (same : SerialExec s.trace ↔ SplitsFresh s.trace) : SerialExec t.trace ↔ SplitsFresh t.trace := by
  cases step with
  | own moved =>
    obtain ⟨serial, splits⟩ := ownKeeps s t moved
    exact serial.trans (same.trans splits.symm)
  | exec req atFront free fresh =>
    have unstarted : ¬ s.Started req := fresh req (List.mem_of_mem_head? atFront)
    rw [serialExec_exec wf atFront]
    simp only [World.log_trace, along_cons, SplitFreshAt, true_and, unstarted, not_false_eq_true, and_true, same]
  | restart req atFront free =>
    have executed := serialExec_exec (s := s.log (.resume s.requests)) (wf.log trivial) atFront
    refine executed.trans ?_
    rw [World.log_started s (by trivial)]
    simp only [World.log_trace, along_cons, SerialAt, SplitFreshAt, true_and, same, atFront, Option.mem_some_iff,
      forall_eq', World.Started, Nat.pos_iff_ne_zero, not_not]
    exact and_comm
  | rest empty => simpa [SerialAt, SplitFreshAt, empty] using same
  | control => exact same
  | refuse check other lost => simpa [SerialAt, SplitFreshAt] using same
  | finish req f atFront fits async => simpa [SerialAt, SplitFreshAt] using same
  | park req f split atFront fits why => simpa [SerialAt, SplitFreshAt] using same
  | flush req err atFront => simpa [SerialAt, SplitFreshAt] using same
  | unpark req f split rest next atFront => simpa [SerialAt, SplitFreshAt] using same
  | retry req err rest next => exact same
  | cancel req atFront => simpa [SerialAt, SplitFreshAt] using same
  | skip => simpa [SerialAt, SplitFreshAt] using same

namespace QueueRun

theorem Move.trace_same {s t : State} (moved : Move s t) :
    (SerialExec t.trace ↔ SerialExec s.trace) ∧ (SplitsFresh t.trace ↔ SplitsFresh s.trace) := by
  cases moved with
  | enqueue | note => simp [SerialAt, SplitFreshAt]
  | _ => exact ⟨Iff.rfl, Iff.rfl⟩

/-- A run executes its requests serially if and only if every split callback ends on an empty queue
or in front of a request that has not been executed. -/
theorem run_serial_iff (ts : List Turn) :
    SerialExec (run ts initial).2.trace ↔ SplitsFresh (run ts initial).2.trace := by
  have along : Wf (run ts initial).2 ∧
      (SerialExec (run ts initial).2.trace ↔ SplitsFresh (run ts initial).2.trace) := by
    refine (run_path ts).invariant (I := fun s => Wf s ∧ (SerialExec s.trace ↔ SplitsFresh s.trace)) ?_
      ⟨initial_idle.wf, Iff.rfl⟩
    rintro s t step ⟨wf, same⟩
    exact ⟨step.wf (fun _ _ => Move.wf) wf, step.serial_iff (fun _ _ => Move.trace_same) wf same⟩
  exact along.2

/-- A request pushed while a split callback waits for the loop is executed by its push and again by
the callback. -/
def doubleExec : List Turn :=
  [⟨5, {}, .op (.push 0)⟩,
   ⟨2000, { script := (List.range 301).flatMap fun i => [.op (.push (i + 1)), .ret]
            replies := List.replicate 301 .sync }, .complete 0⟩,
   ⟨10, { script := [.op (.push 1000)] }, .fire⟩]

theorem doubleExec_not_serial : ¬ SerialExec (run doubleExec initial).2.trace := by
  decide +kernel

end QueueRun

end UniEvent
