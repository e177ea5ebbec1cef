import UniEvent.Program.Keep
import UniEvent.Model.Queue

/-! # A request while it is being submitted

While `Queue::push` of a request is under way its flag `async` is unset. So `Queue::done` does not call it back but
parks it among the finalized requests, and the callback is left to the event loop. The events are those since a log
`base`.
-/

namespace UniEvent

open Program Program.Exec

variable {ρ φ η ε : Type}

/-- The callback of `req` is invoked. -/
def Event.CallsBack (req : ρ) : Event ρ φ η → Prop
  | .finish other _ _ | .notify other _ | .fire other _ => other = req
  | _ => False

instance [DecidableEq ρ] (req : ρ) (e : Event ρ φ η) : Decidable (e.CallsBack req) := by
  apply Event.casesOn (motive := fun e => Decidable (e.CallsBack req)) <;> intros <;>
    unfold Event.CallsBack <;> infer_instance

/-- What was logged between `s` and `t`. -/
def eventsSince (s t : World ρ φ η ε) : List (Event ρ φ η) := t.trace.take (t.trace.length - s.trace.length)

theorem eventsSince_eq {s t : World ρ φ η ε} {new : List (Event ρ φ η)} (trace : t.trace = new ++ s.trace) :
    eventsSince s t = new := by
  simp [eventsSince, trace]

/-- Since `base` the callback of `req` has not been invoked. -/
def Silent (req : ρ) (base : List (Event ρ φ η)) (s : World ρ φ η ε) : Prop :=
  ∃ new, s.trace = new ++ base ∧ ∀ e ∈ new, ¬ e.CallsBack req

/-- The request is at the front and not completed yet. -/
structure AtWork (req : ρ) (base : List (Event ρ φ η)) (s : World ρ φ η ε) : Prop where
  silent : Silent req base s
  async : s.async req = false
  parked : req ∉ s.finalizedRequests
  front : ∃ rest, s.requests = req :: rest ∧ req ∉ rest

/-- The request is completed and its callback is left to the event loop. -/
structure Withheld (req : ρ) (base : List (Event ρ φ η)) (s : World ρ φ η ε) : Prop where
  silent : Silent req base s
  async : s.async req = false
  parked : req ∈ s.finalizedRequests
  gone : req ∉ s.requests

variable {req : ρ} {base : List (Event ρ φ η)} {s t : World ρ φ η ε}

theorem Silent.later (silent : Silent req base s) (new : List (Event ρ φ η)) (trace : t.trace = new ++ s.trace)
    (quiet : ∀ e ∈ new, ¬ e.CallsBack req) : Silent req base t := by
  obtain ⟨old, same, before⟩ := silent
  refine ⟨new ++ old, by rw [trace, same, List.append_assoc], fun e member => ?_⟩
  exact (List.mem_append.mp member).elim (quiet e) (before e)

theorem Silent.events (silent : Silent req s.trace t) : ∀ e ∈ eventsSince s t, ¬ e.CallsBack req := by
  obtain ⟨new, trace, quiet⟩ := silent
  rw [eventsSince_eq trace]
  exact quiet

theorem AtWork.frame (work : AtWork req base s) (trace : t.trace = s.trace) (async : t.async = s.async)
    (parked : t.finalizedRequests = s.finalizedRequests) (requests : t.requests = s.requests) : AtWork req base t where
  silent := work.silent.later [] trace (by simp)
  async := async ▸ work.async
  parked := parked ▸ work.parked
  front := requests ▸ work.front

theorem AtWork.log (work : AtWork req base s) {e : Event ρ φ η} (quiet : ¬ e.CallsBack req) :
    AtWork req base (s.log e) :=
  { work with silent := work.silent.later [e] rfl (by simpa using quiet) }

variable [DecidableEq ρ] {h : Hooks ρ φ η ε}

/-- A request that is completed while it is being submitted is parked. -/
theorem done_withheld (work : AtWork req base s) (f : φ) : Keeps (Withheld req base) (Queue.done h req f) s := by
  obtain ⟨rest, requests, once⟩ := work.front
  have logged : Silent req base (s.log (.done req s.requests)) := work.silent.later [_] rfl (by simp [Event.CallsBack])
  have parks (split : Bool) : Withheld req base (((s.log (.done req s.requests)).retire req).park req f split) := by
    refine ⟨logged.later [] rfl (by simp), work.async, List.mem_append_right _ List.mem_cons_self, ?_⟩
    change req ∉ s.requests.tail
    rw [requests]
    exact once
  have atFront : s.requests.head? = some req := by rw [requests]; rfl
  rw [Keeps]
  simp only [Queue.done, Queue.complete, wp_bind, wp_modify, wp_get, next_done, wp_assert]
  refine ⟨fun _ => ?_, fun other => (other atFront).elim⟩
  split
  · exact parks true
  · split
    · rename_i async
      exact absurd (work.async.symm.trans async) Bool.false_ne_true
    · exact parks false

/-- The submitting call keeps what `exec` keeps of the log. -/
theorem push_keeps {I : World ρ φ η ε → Prop} (unlinked : req ∉ s.requests ∧ req ∉ s.finalizedRequests) (f : ε → ε)
    (silent : ∀ t, Silent req s.trace t → I t) (logged : ∀ t u, u.trace = t.trace → I t → I u)
    (exec : ∀ t, AtWork req s.trace t → Keeps I (h.exec req) t) :
    Keeps I (do
      Exec.modify fun s => World.enqueue req { s with owner := f s.owner }
      Queue.pushed h req) s := by
  let queued : World ρ φ η ε := World.enqueue req { s with owner := f s.owner }
  have waits : Silent req s.trace queued := ⟨[.push req], rfl, by simp [Event.CallsBack]⟩
  refine .modified
    (.get (.bind (.when (silent _ waits) fun alone => .modified (exec _ ?_)) fun _ t holds => .modify ?_))
  · have empty : s.requests = [] := by
      have single : (s.requests ++ [req]).length = 1 := alone.1
      rw [List.length_append, List.length_singleton] at single
      exact List.length_eq_zero_iff.mp (by omega)
    refine AtWork.log (s := queued) ⟨waits, Function.update_self .., unlinked.2, [], ?_, by simp⟩ id
    change s.requests ++ [req] = [req]
    rw [empty, List.nil_append]
  · exact logged t _ rfl holds

theorem push_silent (unlinked : req ∉ s.requests ∧ req ∉ s.finalizedRequests) (f : ε → ε)
    (exec : ∀ t, AtWork req s.trace t → Keeps (Silent req s.trace) (h.exec req) t) :
    Keeps (Silent req s.trace) (do
      Exec.modify fun s => World.enqueue req { s with owner := f s.owner }
      Queue.pushed h req) s :=
  push_keeps unlinked f (fun _ silent => silent) (fun _ _ trace silent => silent.later [] trace (by simp)) exec

end UniEvent
