import UniEvent.Proofs.ResolverMoves

/-! # Submissions and callbacks in the trace

A request is running from its submission to its callback, in every run, so that a callback completes a
submission that no callback has completed before.
-/

namespace UniEvent.Resolver

open Program Program.Exec

variable {s t : State}

/-- The last submission of the request has not been completed. -/
def outstanding (req : Req) : List Event → Bool
  | [] => false
  | .submit r :: before => if r = req then true else outstanding req before
  | .callback r _ _ _ :: before => if r = req then false else outstanding req before
  | _ :: before => outstanding req before

/-- A callback completes a submission that no callback has completed. -/
def OnceAt : Event → List Event → Prop
  | .callback req _ _ _, before => outstanding req before = true
  | _, _ => True

/-- What the trace says about the request is what its field says. -/
structure Outstanding (s : State) : Prop where
  running : ∀ req, (s.requests req).running = outstanding req s.trace
  once : Along OnceAt s.trace

/-- Neither a submission nor a callback. -/
def Event.isInner : Event → Bool
  | .submit _ | .callback _ _ _ _ => false
  | _ => true

private theorem outstanding_inner {e : Event} (inner : e.isInner = true) (req : Req) (before : List Event) :
    outstanding req (e :: before) = outstanding req before ∧ OnceAt e before := by
  cases e with
  | submit | callback => cases inner
  | _ => exact ⟨rfl, trivial⟩

/-- Between submissions and callbacks nothing starts or stops to run. -/
structure Inner (s t : State) : Prop where
  running : ∀ req, (t.requests req).running = (s.requests req).running
  trace : ∃ events, t.trace = events ++ s.trace ∧ ∀ e ∈ events, e.isInner = true

theorem Inner.silent (running : ∀ req, (t.requests req).running = (s.requests req).running)
    (trace : t.trace = s.trace) : Inner s t := ⟨running, [], trace, nofun⟩

theorem Inner.logs {e : Event} (running : ∀ req, (t.requests req).running = (s.requests req).running)
    (trace : t.trace = e :: s.trace) (inner : e.isInner = true) : Inner s t :=
  ⟨running, [e], trace, fun _ member => List.mem_singleton.mp member ▸ inner⟩

theorem Inner.trans {m : State} (first : Inner s m) (second : Inner m t) : Inner s t := by
  obtain ⟨before, trace, inner⟩ := first.trace
  obtain ⟨after, trace', inner'⟩ := second.trace
  refine ⟨fun req => (second.running req).trans (first.running req), after ++ before, ?_, fun e member => ?_⟩
  · rw [trace', trace, List.append_assoc]
  · exact (List.mem_append.mp member).elim (inner' e) (inner e)

theorem Outstanding.inner (holds : Outstanding s) (step : Inner s t) : Outstanding t := by
  obtain ⟨events, trace, inner⟩ := step.trace
  have same : (∀ req, outstanding req t.trace = outstanding req s.trace) ∧ Along OnceAt t.trace := by
    rw [trace]
    clear trace
    induction events with
    | nil => exact ⟨fun _ => rfl, holds.once⟩
    | cons e events ih =>
      obtain ⟨same, once⟩ := ih fun e member => inner e (List.mem_cons_of_mem _ member)
      have added := outstanding_inner (inner e List.mem_cons_self)
      exact ⟨fun req => (added req _).1.trans (same req), (added 0 _).2, once⟩
  exact ⟨fun req => (step.running req).trans ((holds.running req).trans (same.1 req).symm), same.2⟩

/-! ### Submissions and callbacks -/

theorem Outstanding.submit (holds : Outstanding s) (req : Req) (query : Query) : Outstanding (s.submit req query) := by
  refine ⟨fun r => ?_, trivial, holds.once⟩
  by_cases self : r = req
  · simp [self, State.submit, State.setRequest, State.log, outstanding]
  · simp only [State.submit, State.setRequest, State.log, outstanding, if_neg (Ne.symm self),
      Function.update_of_ne self]
    exact holds.running r

private theorem emplace_inner (key : CacheKey) (addr : AddrInfo) (s : State) : Inner s (s.emplace key addr) := by
  rw [State.emplace]
  split
  · exact .silent (fun _ => rfl) rfl
  · exact .logs (fun _ => rfl) rfl rfl

private theorem store_inner (req : Req) (res : Result) (s : State) : Inner s (s.store req res) := by
  cases res with
  | failed err => exact .silent (fun _ => rfl) rfl
  | ok addr =>
    simp only [State.store]
    split
    · split
      · have cleared : Inner s { s with cache := [] } := .silent (fun _ => rfl) rfl
        exact cleared.trans (emplace_inner _ _ _)
      · exact emplace_inner _ _ _
    · exact .silent (fun _ => rfl) rfl

private theorem release_inner (req : Req) (s : State) : Inner s (s.release req) := by
  refine .silent (fun r => ?_) (release_trace req s)
  rw [State.release]
  split
  · rw [State.cancelWorker]
    split
    · rfl
    · exact setRequest_field (s := s) Request.running (by rfl) r
  · split <;> rfl

theorem Outstanding.retire (holds : Outstanding s) {req : Req} (running : (s.requests req).running = true)
    (res : Result) : Outstanding (s.retire req res) := by
  let m : State := s.disarm req
  have dropped : Inner s m := .silent (setRequest_field Request.running rfl) rfl
  have stored := dropped.trans ((release_inner req m).trans (store_inner req res _))
  have before := holds.inner stored
  refine ⟨fun r => ?_, ?_, before.once⟩
  · by_cases self : r = req
    · simp [self, State.retire, State.setRequest, State.log, outstanding]
    · simp only [State.retire, State.setRequest, State.log, outstanding, if_neg (Ne.symm self),
        Function.update_of_ne self]
      exact before.running r
  · exact (before.running req).symm.trans ((stored.running req).trans running)

theorem Outstanding.finished (holds : Outstanding s) (req : Req) (res : Result) : Outstanding (s.finished req res) := by
  rw [State.finished]
  split
  · rename_i running
    exact holds.retire running res
  · exact holds

theorem Outstanding.answered (holds : Outstanding s) (w : ℕ) (res : Result) : Outstanding (s.answered w res) := by
  rw [State.answered]
  split
  · exact holds
  · rename_i req slot
    have moved : Inner s (s.move w req) := .logs (fun _ => rfl) rfl rfl
    exact (holds.inner moved).finished req res

theorem launch_inner (w : ℕ) (req : Req) (reply : Reply) (s : State) : Inner s (s.launch w req reply) := by
  have occupied : Inner s (s.occupy w req) := .silent (setRequest_field Request.running rfl) rfl
  cases reply with
  | pending => exact occupied.trans (.silent (fun _ => rfl) rfl)
  | sync res => exact occupied.trans (.logs (setRequest_field Request.running rfl) rfl rfl)

theorem Step.outstanding (step : Step s t) (holds : Outstanding s) : Outstanding t := by
  cases step with
  | enter move =>
    cases move with
    | frame | expire => exact holds.inner (.silent (fun _ => rfl) rfl)
    | postpone req query addr =>
      refine (holds.submit req query).inner (.logs (fun r => ?_) rfl rfl)
      by_cases self : r = req
      · simp [self, State.postpone, State.delay, State.setRequest, State.log]
      · simp [self, State.postpone, State.delay, State.setRequest, State.log]
    | start req query w reply =>
      have started : Inner (s.submit req query) ((s.submit req query).log (.start req w)) :=
        .logs (fun _ => rfl) rfl rfl
      exact (holds.submit req query).inner (started.trans (launch_inner w req reply _))
    | grow req query reply =>
      have started : Inner (s.submit req query)
        { (s.submit req query).log (.start req s.size) with size := s.size + 1 } := .logs (fun _ => rfl) rfl rfl
      exact (holds.submit req query).inner (started.trans (launch_inner s.size req reply _))
    | enqueue req query =>
      exact (holds.submit req query).inner (.logs (setRequest_field Request.running rfl) rfl rfl)
  | frame | lost => exact holds.inner (.silent (fun _ => rfl) rfl)
  | left | visit | visited => exact holds.inner (.logs (fun _ => rfl) rfl rfl)
  | uncache req => exact holds.inner (.silent (setRequest_field Request.running rfl) rfl)
  | finish req res running => exact holds.retire running res
  | assign w req reply =>
    have popped : Inner s (s.dequeue req w) :=
      .logs (fun _ => rfl) rfl rfl
    exact holds.inner (popped.trans (launch_inner w req reply _))
  | answer w position key res =>
    have taken : Inner s (s.take w position key res) := .logs (fun _ => rfl) rfl rfl
    exact (holds.inner taken).answered w res
  | hit id req addr rest =>
    have popped : Inner s (s.takeDelay req rest) :=
      .silent (setRequest_field Request.running rfl) rfl
    exact (holds.inner popped).finished req _
  | reply id w req res rest =>
    have popped : Inner s (s.takeDelay req rest) :=
      .silent (setRequest_field Request.running rfl) rfl
    exact (holds.inner popped).answered w res

theorem run_outstanding (cfg : Config) (ts : List Turn) : Outstanding (run ts (initial cfg)).2 :=
  run_invariant (fun _ _ step holds => step.outstanding holds) cfg ⟨fun _ => rfl, trivial⟩ ts

theorem mem_of_outstanding {req : Req} {trace : List Event} (pending : outstanding req trace = true) :
    .submit req ∈ trace := by
  induction trace with
  | nil => cases pending
  | cons e before ih =>
    cases e with
    | submit r =>
      by_cases same : r = req
      · exact same ▸ List.mem_cons_self
      · rw [outstanding, if_neg same] at pending
        exact List.mem_cons_of_mem _ (ih pending)
    | callback r key res worker =>
      by_cases same : r = req
      · simp [outstanding, same] at pending
      · rw [outstanding, if_neg same] at pending
        exact List.mem_cons_of_mem _ (ih pending)
    | _ => exact List.mem_cons_of_mem _ (ih pending)

end UniEvent.Resolver
