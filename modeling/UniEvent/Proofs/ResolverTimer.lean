import UniEvent.Proofs.ResolverDebt

/-! # The roll timer

While a worker has a request or requests wait, the timer runs (`Rolls`). Every move of the resolver keeps this, except
that `reset` stops the timer before it cancels anything. During its pass over the workers a weaker fact does: nothing
waits and a worker is free (`Off`), so that the next request of a callback starts the timer again, and until then no
worker gets a request.
-/

namespace UniEvent.Resolver

open Program Program.Exec

variable {s t u : State} {h : Hooks} {req : Req}

/-! ### What the trace says -/

/-- The requests that wait. -/
def waiting : List Event → List Req
  | [] => []
  | .queued req _ :: before => waiting before ++ [req]
  | .assign req _ _ :: before | .callback req _ _ _ :: before => (waiting before).erase req
  | _ :: before => waiting before

/-- The number of calls of `reset` whose pass over the workers has begun and has not ended. -/
def resetting : List Event → ℕ
  | [] => 0
  | .visit 0 :: before => resetting before + 1
  | .visited :: before => resetting before - 1
  | _ :: before => resetting before

/-- `reset` is called only if nothing waits. -/
def ResetAt : Event → List Event → Prop
  | .visit 0, before => waiting before = []
  | _, _ => True

instance : ∀ (e : Event) (before : List Event), Decidable (ResetAt e before)
  | .visit 0, before => inferInstanceAs (Decidable (waiting before = []))
  | .visit (_ + 1), _ | .submit _, _ | .cached _ _, _ | .start _ _, _ | .queued _ _, _ | .assign _ _ _, _
  | .answer _ _, _ | .moved _ _, _ | .store _ _, _ | .callback _ _ _ _, _ | .left _, _ | .visited, _ => .isTrue trivial

/-- The condition on a run. -/
structure WellReset (s : State) : Prop where
  clean : Clean s
  resets : Along ResetAt s.trace

theorem WellReset.earlier (orderly : WellReset t) (older : s.trace <:+ t.trace) : WellReset s :=
  ⟨orderly.clean.earlier older, orderly.resets.earlier older⟩

/-- Neither a step of `reset` nor one of the wait queue. -/
def Event.isPlain : Event → Bool
  | .queued _ _ | .assign _ _ _ | .callback _ _ _ _ | .visit _ | .visited => false
  | _ => true

private theorem waiting_adds {l l' : List Event} (adds : Adds Event.isPlain l l') : waiting l' = waiting l := by
  obtain ⟨events, rfl, plain⟩ := adds
  induction events with
  | nil => rfl
  | cons e events ih =>
    have rest := ih fun e' member => plain e' (List.mem_cons_of_mem _ member)
    have this := plain e List.mem_cons_self
    cases e with
    | queued | assign | callback | visit | visited => cases this
    | _ => exact rest

private theorem resetting_adds {kind : Event → Bool} {l l' : List Event} (adds : Adds kind l l')
    (other : ∀ w, kind (.visit w) = false) (more : kind .visited = false) : resetting l' = resetting l := by
  obtain ⟨events, rfl, all⟩ := adds
  induction events with
  | nil => rfl
  | cons e events ih =>
    have rest := ih fun e' member => all e' (List.mem_cons_of_mem _ member)
    have this := all e List.mem_cons_self
    cases e with
    | visit w => exact absurd this (by simp [other])
    | visited => exact absurd this (by simp [more])
    | _ => exact rest

/-! ### The wait queue -/

private theorem retire_waiting (req : Req) (res : Result) (s : State) :
    waiting (s.retire req res).trace = (waiting s.trace).erase req := by
  let m : State := s.disarm req
  have stored : waiting ((m.release req).store req res).trace = waiting s.trace := by
    rw [waiting_adds (store_adds (fun _ _ => rfl) req res _), release_trace]
    rfl
  exact congrArg (List.erase · req) stored

private theorem finished_waiting (running : (s.requests req).running = true) (res : Result) :
    waiting (s.finished req res).trace = (waiting s.trace).erase req := by
  rw [State.finished, if_pos running]
  exact retire_waiting req res s

private theorem answered_waiting {w : ℕ} (slot : (s.workers w).request = some req)
    (running : (s.requests req).running = true) (res : Result) :
    waiting (s.answered w res).trace = (waiting s.trace).erase req := by
  rw [State.answered, slot]
  exact finished_waiting (s := s.move w req) running res

theorem launch_waiting (w : ℕ) (req : Req) (reply : Reply) (s : State) :
    waiting (s.launch w req reply).trace = waiting s.trace := by
  cases reply with
  | pending => rfl
  | sync res => rfl

private theorem postpone_waiting (req : Req) (query : Query) (addr : AddrInfo) (s : State) :
    waiting ((s.submit req query).postpone req addr).trace = waiting s.trace := by
  have cached : ((s.submit req query).postpone req addr).trace
      = .cached req ((s.submit req query).requests req).worker :: (s.submit req query).trace := by
    rw [State.postpone]
    rfl
  rw [cached, State.submit, State.log]
  rfl

/-- In a clean run the wait queue can be read off the trace. -/
theorem Step.waits (step : Step s t) (placed : Placed s) (same : s.queue = waiting s.trace) :
    t.queue = waiting t.trace := by
  cases step with
  | enter move =>
    cases move with
    | frame | expire => exact same
    | postpone req query addr =>
      rw [((s.submit req query).postpone_frame req addr).2.2.1, (s.submit_frame req query).2.2.1, postpone_waiting]
      exact same
    | start req query w reply =>
      rw [launch_waiting]
      exact (State.launch_frame ..).2.2.1.trans same
    | grow req query reply =>
      rw [launch_waiting]
      exact (State.launch_frame ..).2.2.1.trans same
    | enqueue req query => exact congrArg (· ++ [req]) same
  | frame | left | visit | visited | uncache | lost => exact same
  | finish req res running => rw [retire_waiting, ← same, (retire_leaves placed res running).queue]
  | assign w req reply front =>
    rw [launch_waiting, (State.launch_frame ..).2.2.1]
    change s.queue.tail = (waiting s.trace).erase req
    rw [← same]
    cases queue : s.queue with
    | nil => simp [queue] at front
    | cons first rest =>
      obtain rfl : first = req := by simpa [queue] using front
      rw [List.tail_cons, List.erase_cons_head]
  | answer w position key res =>
    have slots := take_slots w position key res s
    cases slot : (s.workers w).request with
    | none =>
      rw [State.answered, slots w, slot]
      exact same
    | some req =>
      rw [answered_waiting ((slots w).trans slot) (placed.slot w req slot).1]
      have leaves : Leaves req s ((s.take w position key res).answered w res) :=
        answered_leaves placed res slot rfl rfl (fun _ _ => rfl) ⟨_, rfl⟩ slots rfl rfl rfl rfl
      rw [leaves.queue, same]
      rfl
  | hit id req addr rest next =>
    obtain ⟨running, -, -⟩ := placed.hit_owner next
    let m : State := s.takeDelay req rest
    have running' : (m.requests req).running = true :=
      (setRequest_field (s := s) Request.running (by rfl) req).trans running
    rw [(hit_leaves placed next).queue, same]
    exact (finished_waiting running' (.ok addr)).symm
  | reply id w req res rest next slot =>
    let m : State := s.takeDelay req rest
    have running' : (m.requests req).running = true :=
      (setRequest_field (s := s) Request.running (by rfl) req).trans (placed.slot w req slot).1
    rw [(reply_leaves placed next slot).queue, same]
    exact (answered_waiting (s := m) slot running' res).symm

theorem Step.size (step : Step s t) : s.size ≤ t.size := by
  obtain fewer | ⟨m, w, req, reply, rfl, fewer, -⟩ := step.fewer
  · exact fewer.size
  · exact fewer.size.trans (State.launch_frame w req reply m).1.ge

/-- What holds of every state of a run. -/
structure Sane (s : State) : Prop where
  sound : Sound s
  positive : 0 < s.size
  queue : Clean s → s.queue = waiting s.trace

theorem Step.sane (step : Step s t) (sane : Sane s) : Sane t := by
  refine ⟨step.sound sane.sound, sane.positive.trans_le step.size, fun clean => ?_⟩
  have before := clean.earlier step.older
  exact step.waits (sane.sound.placed before) (sane.queue before)

theorem Sane.along (sane : Sane s) (path : Path s t) : Sane t := by
  induction path with
  | refl => exact sane
  | tail _ step ih => exact step.sane ih

/-! ### The timer -/

/-- The timer runs while a worker has a request or requests wait. -/
def Rolls (s : State) : Prop := (s.queue ≠ [] ∨ ∃ w, (s.workers w).request ≠ none) → s.dnsRollTimer = true

/-- Nothing waits and a worker is free. -/
structure Off (s : State) : Prop where
  queue : s.queue = []
  free : ∃ w < s.size, (s.workers w).request = none

/-- What happens to both between two states. -/
structure Follows (s t : State) : Prop where
  rolls : Rolls s → Rolls t
  off : Off s → Rolls t ∨
    Off t ∧ t.size = s.size ∧ ∀ w, (s.workers w).request = none → (t.workers w).request = none

theorem Follows.trans (first : Follows s t) (second : Follows t u) : Follows s u := by
  refine ⟨second.rolls ∘ first.rolls, fun off => ?_⟩
  obtain rolls | ⟨off, size, slots⟩ := first.off off
  · exact Or.inl (second.rolls rolls)
  · obtain rolls | ⟨off', size', slots'⟩ := second.off off
    · exact Or.inl rolls
    · exact Or.inr ⟨off', size'.trans size, fun w free => slots' w (slots w free)⟩

/-- Requests leave, and the timer stays as it is. -/
theorem Follows.of_fewer (size : t.size = s.size) (timer : t.dnsRollTimer = s.dnsRollTimer)
    (queue : s.queue = [] → t.queue = []) (slots : ∀ w, (s.workers w).request = none → (t.workers w).request = none) :
    Follows s t := by
  constructor
  · intro rolls busy
    rw [timer]
    exact rolls
      (busy.imp (fun some empty => some (queue empty)) fun found => found.imp fun w some free => some (slots w free))
  · rintro ⟨empty, w, bound, free⟩
    exact Or.inr ⟨⟨queue empty, w, size ▸ bound, slots w free⟩, size, slots⟩

theorem Follows.same (size : t.size = s.size) (timer : t.dnsRollTimer = s.dnsRollTimer) (queue : t.queue = s.queue)
    (slots : ∀ w, (t.workers w).request = (s.workers w).request) : Follows s t :=
  .of_fewer size timer (fun empty => queue.trans empty) fun w free => (slots w).trans free

/-- A request is added where there is one already. -/
theorem Follows.of_busy (timer : t.dnsRollTimer = s.dnsRollTimer)
    (busy : s.queue ≠ [] ∨ ∃ w, (s.workers w).request ≠ none) (full : ¬ Off s) : Follows s t :=
  ⟨fun rolls _ => timer.trans (rolls busy), fun off => absurd off full⟩

theorem Follows.of_rolls (rolls : Rolls t) : Follows s t := ⟨fun _ => rolls, fun _ => Or.inl rolls⟩

theorem launch_timer (w : ℕ) (req : Req) (reply : Reply) (s : State) :
    (s.launch w req reply).dnsRollTimer = s.dnsRollTimer := by
  cases reply with
  | pending => rfl
  | sync res => rfl

private theorem release_timer (req : Req) (s : State) : (s.release req).dnsRollTimer = s.dnsRollTimer := by
  rw [State.release]
  split
  · rw [State.cancelWorker]
    split <;> rfl
  · split <;> rfl

private theorem retire_timer (req : Req) (res : Result) (s : State) :
    (s.retire req res).dnsRollTimer = s.dnsRollTimer := by
  let m : State := s.disarm req
  obtain ⟨cache, trace, same⟩ := store_eq req res (m.release req)
  change ((m.release req).store req res).dnsRollTimer = _
  rw [same]
  exact release_timer req m

/-- A request leaves. -/
theorem retire_follows (req : Req) (res : Result) (s : State) : Follows s (s.retire req res) := by
  have frees := retire_frees req res s
  have fewer := retire_fewer req res s
  refine .of_fewer frees.size (retire_timer req res s) frees.queue fun w free => ?_
  cases slot : ((s.retire req res).workers w).request with
  | none => rfl
  | some r =>
    obtain ⟨r', before⟩ := fewer.slot w r slot
    rw [free] at before
    cases before

/-! ### Submission -/

/-- A step outside of `reset`. -/
structure Plain (s t : State) : Prop where
  follows : Follows s t
  depth : resetting t.trace = resetting s.trace

theorem Plain.trans (first : Plain s t) (second : Plain t u) : Plain s u :=
  ⟨first.follows.trans second.follows, second.depth.trans first.depth⟩

theorem Plain.same (size : t.size = s.size) (timer : t.dnsRollTimer = s.dnsRollTimer) (queue : t.queue = s.queue)
    (slots : ∀ w, (t.workers w).request = (s.workers w).request)
    (trace : resetting t.trace = resetting s.trace) : Plain s t := ⟨.same size timer queue slots, trace⟩

theorem launch_resetting (w : ℕ) (req : Req) (reply : Reply) (s : State) :
    resetting (s.launch w req reply).trace = resetting s.trace :=
  resetting_adds (launch_adds w req reply s) (fun _ => rfl) rfl

private theorem retire_plain (req : Req) (res : Result) (s : State) : Plain s (s.retire req res) :=
  ⟨retire_follows req res s, resetting_adds (retire_adds req res s) (fun _ => rfl) rfl⟩

theorem State.AllBusy.not_off (busy : s.AllBusy) : ¬ Off s := by
  rintro ⟨-, w, bound, free⟩
  exact busy w bound free

private theorem place_plain (req : Req) (positive : 0 < s.size) : wp (place req) (fun _ t => Plain s t) s := by
  simp only [place]
  rw [wp_get_bind]
  split
  · rename_i empty
    split
    · rename_i w found
      rw [wp_modify_bind]
      refine wp_workerResolve fun reply replies => ⟨.of_rolls fun _ => ?_, ?_⟩
      · exact launch_timer w req reply _
      · exact launch_resetting w req reply _
    · rename_i none
      have busy := idle?_none none
      split
      · rw [wp_modify_bind]
        refine wp_workerResolve fun reply replies => ⟨.of_busy ?_ (Or.inr ⟨0, busy 0 positive⟩) busy.not_off, ?_⟩
        · exact launch_timer s.size req reply _
        · exact launch_resetting s.size req reply _
      · exact ⟨.of_busy rfl (Or.inr ⟨0, busy 0 positive⟩) busy.not_off, rfl⟩
  · rename_i some
    exact ⟨.of_busy rfl (Or.inl some) fun off => some off.queue, rfl⟩

theorem placeTimed_plain (req : Req) (timeout : ℕ) (positive : 0 < s.size) :
    wp (do startTimer req timeout; place req) (fun _ t => Plain s t) s := by
  rw [wp_bind]
  refine startTimer_eq req timeout fun timers => ?_
  have timed : Plain s { s with timers } := .same rfl rfl rfl (fun _ => rfl) rfl
  exact wp_mono (place_plain (s := { s with timers }) req positive) fun _ _ => timed.trans

theorem resolve_plain (req : Req) (query : Query) (positive : 0 < s.size) :
    wp (resolve req query) (fun _ t => Plain s t) s := by
  have submitted : Plain s (s.submit req query) := .same rfl rfl rfl (fun _ => rfl) rfl
  simp only [resolve]
  rw [wp_modify_bind, wp_get_bind]
  split
  · rw [wp_bind]
    refine wp_mono (find_searched _) ?_
    rintro o t (⟨rfl, same | expired⟩ | ⟨addr, rfl, rfl, -⟩)
    · subst same
      exact wp_mono (placeTimed_plain (s := s.submit req query) req query.timeout positive) fun _ _ => submitted.trans
    · have forgotten : Plain s t := submitted.trans (by rw [expired]; exact .same rfl rfl rfl (fun _ => rfl) rfl)
      have positive' : 0 < t.size := by rw [expired]; exact positive
      exact wp_mono (placeTimed_plain req query.timeout positive') fun _ _ => forgotten.trans
    · exact submitted.trans (.same (t := (s.submit req query).postpone req addr) rfl rfl rfl (fun _ => rfl) rfl)
  · exact wp_mono (placeTimed_plain (s := s.submit req query) req query.timeout positive) fun _ _ => submitted.trans

/-! ### Completion -/

/-- What holds between a call and the moment when control is back. A pass of `reset` left early is still open. -/
structure Kept (s t : State) : Prop where
  path : Path s t
  depth : Sane s → WellReset t → resetting s.trace ≤ resetting t.trace
  follows : Sane s → WellReset t → resetting t.trace = resetting s.trace → Follows s t

instance : Std.Refl Kept := ⟨fun _ => ⟨.refl, fun _ _ => le_rfl, fun _ _ _ => .same rfl rfl rfl fun _ => rfl⟩⟩

instance : IsTrans State Kept where
  trans s t u first second := by
    refine ⟨first.path.trans second.path, fun sane orderly => ?_, fun sane orderly same => ?_⟩
    · have before := orderly.earlier (path_older second.path)
      exact (first.depth sane before).trans (second.depth (sane.along first.path) orderly)
    · have before := orderly.earlier (path_older second.path)
      have lower := first.depth sane before
      have upper := second.depth (sane.along first.path) orderly
      have middle : resetting t.trace = resetting s.trace := by omega
      exact (first.follows sane before middle).trans (second.follows (sane.along first.path) orderly (by omega))

theorem Plain.kept (path : Path s t) (plain : Sane s → Plain s t) : Kept s t :=
  ⟨path, fun sane _ => (plain sane).depth.ge, fun sane _ _ => (plain sane).follows⟩

theorem Plain.step (step : Step s t) (plain : Plain s t) : Kept s t := Plain.kept (.single step) fun _ => plain

/-- The recursive calls. -/
structure Hooks.Minds (h : Hooks) : Prop where
  ok : h.Ok
  finish : ∀ req res s, Cause s req res → wp (h.finishResolve req res) (Backed Kept s) s
  user : ∀ s, wp h.user (Backed Kept s) s

private theorem serve_kept (minds : h.Minds) {addr : AddrInfo} (hit : s.Hit req addr)
    (waits : s.queue.head? = some req) : wp (serve h req addr) (Backed Kept s) s := by
  have uncached : Kept s (s.setRequest req { s.requests req with useCache := false }) :=
    Plain.step (.uncache s req) (.same rfl rfl rfl (fun _ => rfl) rfl)
  simp only [serve]
  rw [wp_modify_bind]
  refine wp_backed_after uncached (wp_bind_backed (wp_attempt_back (minds.finish req _ _ ?_)) fun failed t _ => ?_)
  · obtain ⟨cached, found, same⟩ := hit
    refine .cached addr ⟨cached, ?_, same⟩ waits
    simpa [State.setRequest, Request.key] using found
  · refine wp_when_backed fun _ => ?_
    rw [wp_modify_bind]
    exact fun _ => Plain.step (.left t) (.same rfl rfl rfl (fun _ => rfl) rfl)

private theorem assign_kept {w : ℕ} (reply : Reply) (replies : List Reply) (front : s.queue.head? = some req)
    (freed : s.Freed w) : Kept s { State.launch w req reply
      (s.dequeue req w) with replies } := by
  have waits : s.queue ≠ [] := fun empty => by simp [empty] at front
  refine Plain.kept (.tail (.single (.assign s w req reply front freed)) (frame_replies _ replies)) fun _ => ⟨?_, ?_⟩
  · exact .of_busy (launch_timer w req reply _) (Or.inl waits) fun off => waits off.queue
  · exact launch_resetting w req reply _

private theorem drain_kept (minds : h.Minds) (w : ℕ) (budget : ℕ) :
    ∀ s : State, s.Freed w → wp (drain h w budget) (Backed Kept s) s := by
  induction budget with
  | zero => exact fun _ _ => nofun
  | succ budget ih =>
    intro s freed
    simp only [drain]
    rw [wp_get_bind]
    split
    · exact fun _ => Std.Refl.refl s
    · rename_i req rest queue
      rw [wp_bind]
      refine wp_mono (wp_and (lookup_hit req) (lookup_frame req s)) ?_
      rintro o t ⟨⟨path, same, hit⟩, found, cache, rfl, frame⟩
      have front : t.queue.head? = some req := by rw [same, queue]; rfl
      have looked : Kept s t := Plain.kept path fun _ => frame ▸ .same rfl rfl rfl (fun _ => rfl) rfl
      refine wp_backed_after looked ?_
      cases found with
      | some addr =>
        refine wp_bind_backed (serve_kept minds (hit addr rfl) front) fun _ u kept => ?_
        exact ih u ((freed.later path).later kept.path)
      | none =>
        rw [wp_modify_bind]
        exact wp_workerResolve fun reply replies _ => assign_kept reply replies front (freed.later path)

private theorem afterResolve_kept (minds : h.Minds) (worker : Option ℕ) (freed : ∀ w, worker = some w → s.Freed w) :
    wp (afterResolve h worker) (Backed Kept s) s := by
  simp only [afterResolve]
  rw [wp_get_bind]
  split
  · exact fun _ => Std.Refl.refl s
  · rename_i w
    split
    · exact fun _ => Std.Refl.refl s
    · split
      · rename_i empty
        refine wp_when_backed fun idle _ => Plain.kept (.single (frame_rollTimer s false)) fun sane =>
          ⟨.of_rolls ?_, rfl⟩
        rintro (waits | ⟨w', busy⟩)
        · exact absurd empty waits
        · obtain ⟨r, slot⟩ := Option.ne_none_iff_exists'.mp busy
          exact absurd (idle w' (List.mem_range.mpr (sane.sound.bounded.slot w' r slot))) busy
      · exact drain_kept minds w _ s (freed w rfl)

/-- The completion of a request, from the state in which it has left. -/
theorem finishResolve_kept (minds : h.Minds) (req : Req) (res : Result) (s : State) :
    wp (finishResolve h req res) (Backed Kept (s.finished req res)) s := by
  simp only [finishResolve]
  rw [wp_get_bind, State.finished]
  split
  · rw [wp_modify_bind]
    exact wp_scopeGuard_backed (minds.user _) fun t kept => afterResolve_kept minds _ fun w names =>
      (retire_freed res w names).later kept.path
  · exact fun _ => Std.Refl.refl s

theorem finished_plain (req : Req) (res : Result) (s : State) : Plain s (s.finished req res) := by
  rw [State.finished]
  split
  · exact retire_plain req res s
  · exact .same rfl rfl rfl (fun _ => rfl) rfl

theorem finished_kept {res : Result} (cause : Cause s req res) : Kept s (s.finished req res) :=
  Plain.kept (finished_reached cause) fun _ => finished_plain req res s

theorem cancel_kept (minds : h.Minds) (req : Req) (err : Err) (s : State) : wp (cancel h req err) (Backed Kept s) s :=
  wp_backed_after (finished_kept (.canceled err)) (finishResolve_kept minds req _ s)

end UniEvent.Resolver
