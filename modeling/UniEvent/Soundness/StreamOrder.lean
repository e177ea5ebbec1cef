import UniEvent.Soundness.StreamNotify

/-! # Callbacks come in the order of submission

Connect, write, shutdown and run-in-order requests have callbacks of the user. `owed` reads off a trace
which of them are still to come, oldest submission first; callbacks are in order if each one that is
invoked is the oldest owed, and `run_in_order` runs its code at once only when none is owed.

The requests owed are those of the two chains, the parked ones first. So order can be lost in two places
that do not look at `finalized_requests`: `done` running a closure at once, and `run_in_order` finding
`requests` empty. Callbacks are in order exactly when no callback is parked at those moments.
-/

namespace UniEvent.Stream

open Program Program.Exec

def Req.hasCallback : Req → Bool
  | .connect _ _ | .write _ _ | .shutdown _ _ | .runInOrder _ => true
  | .disconnect _ | .accept _ => false

/-- The callback the user is owed for a request. -/
def Req.calledBack (req : Req) : Option Req := if req.hasCallback = true then some req else none

/-- The request whose callback a closure invokes. -/
def Fn.callback? : Fn → Option Req
  | .notifyOn req _ | .code req => some req
  | .reset | .nothing => none

/-- The request whose callback an event invokes; `notify` of a run-in-order request invokes none. -/
def callback? : Event Req Fn Note → Option Req
  | .finish _ f _ | .fire _ f => f.callback?
  | .notify req _ => req.told
  | _ => none

/-- The submitted requests whose callbacks are still to come, oldest first. -/
def owed : List (Event Req Fn Note) → List Req
  | [] => []
  | .push req :: before => owed before ++ req.calledBack.toList
  | .finish req _ _ :: before | .fire req _ :: before | .notify req _ :: before => (owed before).erase req
  | _ :: before => owed before

/-- The callback invoked is the oldest owed; code that `run_in_order` runs at once waits for nothing. -/
def InOrderAt : Event Req Fn Note → List (Event Req Fn Note) → Prop
  | .own (.runNow _), before => owed before = []
  | e, before => ∀ req ∈ callback? e, (owed before).head? = some req

/-- No callback is parked when `done` or `run_in_order` invokes one at once. -/
def NoneParkedAt : Event Req Fn Note → List (Event Req Fn Note) → Prop
  | .own (.runNow parked), _ => ∀ other ∈ parked, other.hasCallback = false
  | .finish req _ parked, _ => req.hasCallback = true → ∀ other ∈ parked, other.hasCallback = false
  | _, _ => True

instance : ∀ (e : Event Req Fn Note) (before : List (Event Req Fn Note)), Decidable (InOrderAt e before)
  | .own (.runNow _), before => inferInstanceAs (Decidable (owed before = []))
  | .finish req f parked, before =>
    inferInstanceAs (Decidable (∀ other ∈ callback? (.finish req f parked), (owed before).head? = some other))
  | .fire req f,
    before => inferInstanceAs (Decidable (∀ other ∈ callback? (.fire req f), (owed before).head? = some other))
  | .notify req err, before =>
    inferInstanceAs (Decidable (∀ other ∈ callback? (.notify req err), (owed before).head? = some other))
  | .own (.connectEvent _), _ | .own (.connectLeft _), _ | .own .resetCall, _ | .own (.passed _ _), _
  | .own (.zero _), _ | .own .turn, _ | .push _, _ | .exec _ _, _ | .done _ _, _ | .cancel _, _ | .resume _, _
  | .skip _ _, _ => .isTrue fun _ none => by cases none

variable {s t : State} {req : Req} {f : Fn}

theorem Closes.callback (closes : Closes req f) : f.callback? = req.calledBack := by
  cases req with
  | connect | write | shutdown =>
    obtain ⟨err, rfl⟩ := closes
    rfl
  | disconnect => rcases closes with rfl | rfl <;> rfl
  | accept | runInOrder =>
    obtain rfl := closes
    rfl

/-- The callbacks owed are those of the parked requests and then those of the waiting ones. -/
def Owes (s : State) : Prop := owed s.trace = (s.finalizedRequests ++ s.requests).filter Req.hasCallback

private theorem filter_calledBack (req : Req) : [req].filter Req.hasCallback = req.calledBack.toList := by
  by_cases kind : req.hasCallback = true <;> simp [Req.calledBack, kind]

private theorem erase_filter (req : Req) (requests : List Req) :
    (requests.filter Req.hasCallback).erase req = (requests.erase req).filter Req.hasCallback := by
  induction requests with
  | nil => rfl
  | cons first rest ih =>
    by_cases same : first = req
    · subst same
      by_cases kind : first.hasCallback = true
      · simp [kind]
      · rw [List.filter_cons_of_neg kind, List.erase_cons_head, List.erase_of_not_mem]
        simp [kind]
    · by_cases kind : first.hasCallback = true <;> simp [kind, same, ih]

/-- A request that is taken out of the chains is owed nothing any more. -/
theorem Owes.erase (owes : Owes s) {linked : List Req} (leaves : s.finalizedRequests ++ s.requests = linked)
    (req : Req) : (owed s.trace).erase req = (linked.erase req).filter Req.hasCallback := by
  rw [owes, leaves, erase_filter]

theorem Move.owes (moved : Move s t) (owes : Owes s) : Owes t := by
  cases moved with
  | enqueue req owner _ _ _ _ =>
    change owed s.trace ++ req.calledBack.toList = (s.finalizedRequests ++ (s.requests ++ [req])).filter Req.hasCallback
    rw [owes, ← List.append_assoc, List.filter_append (s.finalizedRequests ++ s.requests), filter_calledBack]
  | _ => exact owes

theorem Step.owes (step : Step Own s t) (wf : Wf s) (owes : Owes s) : Owes t := by
  cases step with
  | own moved => exact moved.owes owes
  | finish req f atFront fits async =>
    obtain ⟨rest, requests⟩ := List.head?_eq_some_iff.mp atFront
    have absent := (wf.not_mem_tail atFront).2
    refine (owes.erase rfl req).trans ?_
    change _ = (s.finalizedRequests ++ s.requests.tail).filter Req.hasCallback
    rw [List.erase_append_right _ absent, requests, List.erase_cons_head, List.tail_cons]
  | park req f split atFront fits why =>
    obtain ⟨rest, requests⟩ := List.head?_eq_some_iff.mp atFront
    change owed s.trace = ((s.finalizedRequests ++ [req]) ++ s.requests.tail).filter Req.hasCallback
    rw [owes, requests, List.append_assoc]
    rfl
  | flush req err atFront =>
    refine (owes.erase (wf.parked_front atFront).1 req).trans ?_
    rw [List.erase_cons_head]
    rfl
  | unpark req f split rest next atFront =>
    refine (owes.erase (wf.parked_front atFront).1 req).trans ?_
    rw [List.erase_cons_head]
    rfl
  | _ => exact owes

/-- A closure that `done` runs at once is in order if and only if no callback is parked. -/
theorem finish_inOrder_iff (wf : Wf s) (owes : Owes s) (atFront : s.requests.head? = some req) (closes : Closes req f) :
    InOrderAt (.finish req f s.finalizedRequests) (.done req s.requests :: s.trace) ↔
      NoneParkedAt (.finish req f s.finalizedRequests) (.done req s.requests :: s.trace) := by
  obtain ⟨rest, requests⟩ := List.head?_eq_some_iff.mp atFront
  have absent := (wf.not_mem_tail atFront).2
  have account : owed (.done req s.requests :: s.trace) =
      s.finalizedRequests.filter Req.hasCallback ++ (req :: rest).filter Req.hasCallback := by
    rw [← List.filter_append, ← requests]
    exact owes
  simp only [InOrderAt, NoneParkedAt, callback?, closes.callback, Req.calledBack, account]
  by_cases kind : req.hasCallback = true
  · cases first : s.finalizedRequests.filter Req.hasCallback with
    | nil => simpa [kind] using first
    | cons other later =>
      have member : other ∈ s.finalizedRequests ∧ other.hasCallback = true :=
        List.mem_filter.mp (first ▸ List.mem_cons_self ..)
      have ne : other ≠ req := fun same => absent (same ▸ member.1)
      simp only [kind, if_true, Option.mem_some_iff, forall_eq', List.cons_append, List.head?_cons,
        Option.some.injEq, ne,
        forall_const, false_iff]
      exact fun none => by simp [none other member.1] at member
  · simp [kind]

/-- A parked request comes first. -/
theorem parked_inOrder (wf : Wf s) (owes : Owes s) (atFront : s.finalizedRequests.head? = some req)
    (kind : req.hasCallback = true) : (owed s.trace).head? = some req := by
  rw [owes, (wf.parked_front atFront).1]
  simp [kind]

/-- One move adds the same to both properties. -/
theorem Step.order_iff (step : Step Own s t) (wf : Wf s) (parked : Parked s) (owes : Owes s)
    (same : Along InOrderAt s.trace ↔ Along NoneParkedAt s.trace) :
    Along InOrderAt t.trace ↔ Along NoneParkedAt t.trace := by
  cases step with
  | own moved =>
    cases moved with
    | handle | arm | activate | deactivate | delayCancel => exact same
    | enqueue | pass | zero | connectEvent | connectLeft | resetCall | turn =>
      simpa [InOrderAt, NoneParkedAt, callback?] using same
    | runNow empty =>
      refine and_congr ?_ same
      simp [InOrderAt, NoneParkedAt, show owed s.trace = _ from owes, empty]
  | finish req f atFront fits async =>
    refine and_congr (finish_inOrder_iff wf owes atFront (Fits.closes fits)) ?_
    simpa [InOrderAt, NoneParkedAt, callback?] using same
  | flush req err atFront =>
    refine and_congr ⟨fun _ => trivial, fun _ other told => ?_⟩ same
    obtain ⟨event, rfl⟩ : req.hasEvent = true ∧ req = other := by simpa [callback?, Req.told] using told
    have kind : req.hasCallback = true := by cases req <;> first | rfl | cases event
    exact parked_inOrder (s := s) wf owes atFront kind
  | unpark req f split rest next atFront =>
    refine and_congr ⟨fun _ => trivial, fun _ other called => ?_⟩ same
    have closes := parked req f split (next ▸ List.mem_cons_self ..)
    obtain ⟨kind, rfl⟩ : req.hasCallback = true ∧ req = other := by
      simpa [callback?, closes.callback, Req.calledBack] using called
    exact parked_inOrder (s := s) wf owes atFront kind
  | control | retry => exact same
  | _ => simpa [InOrderAt, NoneParkedAt, callback?] using same

/-- Callbacks are invoked in the order of submission if and only if no callback is parked whenever `done`
runs one at once or `run_in_order` finds `requests` empty. -/
theorem run_order_iff (ts : List Turn) :
    Along InOrderAt (run ts initial).2.trace ↔ Along NoneParkedAt (run ts initial).2.trace := by
  have along : Owes (run ts initial).2 ∧
      (Along InOrderAt (run ts initial).2.trace ↔ Along NoneParkedAt (run ts initial).2.trace) := by
    refine run_invariant (I := fun s => Owes s ∧ (Along InOrderAt s.trace ↔ Along NoneParkedAt s.trace)) ?_
      ⟨rfl, Iff.rfl⟩ ts
    intro s t step wf parked before
    exact ⟨Step.owes step wf before.1, Step.order_iff step wf parked before.1 before.2⟩
  exact along.2

/-- The callback of a write is parked; `run_in_order` finds `requests` empty and runs before it. -/
def overtakingCode : List Turn :=
  [{ depth := 9, task := .op .opened },
   { depth := 9, replies := [.sync none], task := .op (.write 1 [5]) },
   { depth := 9, task := .op .runInOrder },
   { depth := 9, task := .fire }]

theorem overtakingCode_not_inOrder : ¬ Along InOrderAt (run overtakingCode initial).2.trace := by
  decide

end UniEvent.Stream
