import UniEvent.Proofs.QueueSubmit
import UniEvent.Proofs.StreamCalls

/-! # What holds until the queue is canceled

`Queue::cancel` is entered only by `reset()`, by `clear()`, or by the completion of a connect. Until then a request that
is parked is called back only by the event loop, and no request is canceled. A `Watch` is something of this kind, and
`Safe` the invariant behind it: an event that may enter `cancel` has happened, or it still holds. All members of the
requests keep it.
-/

namespace UniEvent.Stream

open Program Program.Exec

/-- Events that a watch does not mind. -/
def Quiet : Event Req Fn Note → Prop
  | .exec _ _ | .done _ _ | .own _ => True
  | _ => False

/-- Something that is `held` since a log `base`, until an event `exposes` it. It does not depend on requests that are
`apart`, and these are all that are in the queue or can be pushed. -/
structure Watch where
  base : List (Event Req Fn Note)
  exposes : Event Req Fn Note → Prop
  apart : Req → Prop
  held : State → Prop
  since : ∀ {s}, held s → ∃ new, s.trace = new ++ base
  reset : exposes (.own .resetCall)
  connect : ∀ {s req}, held s → req ∈ s.requests → exposes (.own (.connectEvent req))
  member : ∀ {s req}, held s → req ∈ s.requests → apart req
  unlinked : ∀ {s req}, held s → Unlinked s req → apart req
  frame : ∀ {s t}, held s → t.trace = s.trace → t.async = s.async → t.finalizedRequests = s.finalizedRequests →
    t.requests = s.requests → held t
  log : ∀ {s e}, held s → Quiet e → held (s.log e)
  finish : ∀ {s req f}, held s → apart req → held (s.log (.finish req f s.finalizedRequests))
  enqueue : ∀ {s req}, held s → apart req → held (s.enqueue req)
  pushed : ∀ {s req}, held s → apart req → held (s.setAsync req true)
  retire : ∀ {s req}, held s → held (s.retire req)
  park : ∀ {s req f split}, held s → held (s.park req f split)

variable {w : Watch} {s t : State} {still : Prop}

/-- An event has happened that may enter `cancel`. -/
def Exposed (w : Watch) (s : State) : Prop := ∃ new, s.trace = new ++ w.base ∧ ∃ e ∈ new, w.exposes e

/-- While it is held; with `still` false, what holds after such an event only. -/
def Safe (w : Watch) (still : Prop) (s : State) : Prop := Exposed w s ∨ still ∧ w.held s

theorem Exposed.later (exposed : Exposed w s) (new : List (Event Req Fn Note)) (trace : t.trace = new ++ s.trace) :
    Exposed w t := by
  obtain ⟨old, same, e, member, exposes⟩ := exposed
  refine ⟨new ++ old, by rw [trace, same, List.append_assoc], e, List.mem_append_right _ member, exposes⟩

private theorem exposed_of_since {e : Event Req Fn Note} (since : ∃ new, s.trace = new ++ w.base)
    (exposes : w.exposes e) : Exposed w (s.log e) := by
  obtain ⟨old, same⟩ := since
  exact ⟨e :: old, congrArg (e :: ·) same, e, List.mem_cons_self, exposes⟩

section

variable (safe : Safe w still s)

include safe

theorem Safe.since : ∃ new, s.trace = new ++ w.base :=
  safe.elim (fun exposed => exposed.imp fun _ same => same.1) fun held => w.since held.2

/-- What a move does to the invariant: nothing matters after such an event. -/
theorem Safe.move (new : List (Event Req Fn Note)) (trace : t.trace = new ++ s.trace)
    (kept : still → w.held s → w.held t) : Safe w still t :=
  safe.imp (fun exposed => exposed.later new trace) fun ⟨holds, held⟩ => ⟨holds, kept holds held⟩

theorem Safe.frame (trace : t.trace = s.trace) (async : t.async = s.async)
    (parked : t.finalizedRequests = s.finalizedRequests) (requests : t.requests = s.requests) : Safe w still t :=
  safe.move [] trace fun _ held => w.frame held trace async parked requests

theorem Safe.log {e : Event Req Fn Note} (quiet : Quiet e) : Safe w still (s.log e) :=
  safe.move [e] rfl fun _ held => w.log held quiet

/-- Either it is held, or it is enough to keep that. -/
theorem Safe.cases {m : Exec State Unit}
    (kept : ∀ still, Safe w still s → (still → w.held s) → Keeps (Safe w still) m s) : Keeps (Safe w still) m s := by
  rcases safe with exposed | ⟨holds, held⟩
  · exact (kept False (.inl exposed) fun never => never.elim).mono fun t safe => safe.imp_right fun held => held.1.elim
  · exact kept still (.inr ⟨holds, held⟩) fun _ => held

/-! ### The queue -/

end

variable {h : Members} {other : Req}

/-- What the members keep. -/
structure Withholds (w : Watch) (h : Members) : Prop where
  exec : ∀ still s other, Safe w still s → other ∈ s.requests → Keeps (Safe w still) (h.exec other) s
  cancel : ∀ still s other, Safe w still s → other ∈ s.requests →
    Keeps (Safe w still) (h.cancel other .canceled) s
  notify : ∀ still s other err, Safe w still s → Keeps (Safe w still) (h.notify other err) s
  call : ∀ still s f, Safe w still s → Keeps (Safe w still) (h.call f) s
  user : ∀ still s, Safe w still s → Keeps (Safe w still) h.user s

section Queue
variable (withholds : Withholds w h)
include withholds

section

variable (safe : Safe w still s)

include safe

private theorem start_safe (member : other ∈ s.requests) : Keeps (Safe w still) (Queue.start h other) s :=
  .modified (withholds.exec still _ other (safe.log trivial) member)

theorem resume_safe : Keeps (Safe w still) (Queue.resume h) s := by
  refine .get ?_
  split
  · exact .pure safe
  · rename_i other rest requests
    exact .when safe fun _ => start_safe withholds safe (by rw [requests]; exact List.mem_cons_self)

private theorem pushed_safe (member : other ∈ s.requests) (apart : still → w.apart other) :
    Keeps (Safe w still) (Queue.pushed h other) s := by
  refine .get (.bind (.when safe fun _ => start_safe withholds safe member) fun _ t after => .modify ?_)
  exact after.move [] rfl fun holds held => w.pushed held (apart holds)

private theorem release_safe : Keeps (Safe w still) (Queue.release h) s := by
  refine .modified (.modified (.bind (resume_safe withholds ?_) fun _ t after => .modify ?_))
  · exact safe.frame rfl rfl rfl rfl
  · exact after.frame rfl rfl rfl rfl

private theorem complete_safe (f : Fn) (apart : still → w.apart other) :
    Keeps (Safe w still) (Queue.complete h other f) s := by
  have parks (split : Bool) : Safe w still (s.park other f split) := safe.move [] rfl fun _ held => w.park held
  refine .get ?_
  split
  · exact .modify (parks true)
  · split
    · refine .modified
        (.modified (.scopeGuard (withholds.call still _ f ?_) fun t after => release_safe withholds after))
      exact safe.move [.finish other f s.finalizedRequests] rfl fun holds held =>
        w.finish (w.frame (t := s.lock) held rfl rfl rfl rfl) (apart holds)
    · exact .modify (parks false)

theorem done_safe (other : Req) (f : Fn) : Keeps (Safe w still) (Queue.done h other f) s := by
  refine safe.cases fun still safe held => ?_
  have logged : Safe w still (s.log (.done other s.requests)) := safe.log trivial
  refine .modified (.get (.asserted logged fun atFront => .modified ?_))
  refine complete_safe withholds ?_ f fun holds => w.member (held holds) (List.mem_of_head? atFront)
  exact logged.move [] rfl fun _ held => w.retire held

end

omit withholds in
theorem flushFinalized_keeps {I : State → Prop}
    (flush : ∀ s cur rest, I s → s.finalizedRequests = cur :: rest → I (s.flush cur .canceled))
    (notify : ∀ s cur, I s → Keeps I (h.notify cur .canceled) s) (budget : ℕ) :
    ∀ s, I s → Keeps I (Queue.flushFinalized h budget) s := by
  induction budget with
  | zero => exact fun s holds => .halt holds
  | succ budget ih =>
    intro s holds
    refine .get ?_
    split
    · exact .pure holds
    · rename_i cur rest parked
      refine .modified (.bind (notify _ cur (flush s cur rest holds parked)).attempt fun _ t after => ?_)
      exact (ih t after).bind fun _ _ after => .pure after

private theorem cancelRequests_safe (cancels : still → ∀ s cur, w.held s → w.held (s.log (.cancel cur))) (budget : ℕ) :
    ∀ s, Safe w still s → Keeps (Safe w still) (Queue.cancelRequests h budget) s := by
  induction budget with
  | zero => exact fun s safe => .halt safe
  | succ budget ih =>
    intro s safe
    refine .get ?_
    split
    · exact .halt safe
    · rename_i cur rest requests
      have logged : Safe w still (s.log (.cancel cur)) := safe.move [.cancel cur] rfl fun holds => cancels holds s cur
      have member : cur ∈ (s.log (.cancel cur)).requests := by
        change cur ∈ s.requests
        rw [requests]
        exact List.mem_cons_self
      refine .modified (.bind (withholds.cancel still _ cur logged member).attempt fun _ t after => ?_)
      refine .get (.asserted after fun _ => ?_)
      split
      · exact (ih t after).bind fun _ _ after => .pure after
      · exact .pure after

private theorem cancelWaiting_safe (cancels : still → ∀ s cur, w.held s → w.held (s.log (.cancel cur)))
    (safe : Safe w still s) : Keeps (Safe w still) (Queue.cancelWaiting h) s := by
  refine .get ?_
  split
  · exact cancelRequests_safe withholds cancels h.budget s safe
  · exact .pure safe

omit withholds in
private theorem postCancel_safe {fpost : Exec State Unit} (gen : ℕ) (safe : Safe w still s)
    (post : Keeps (Safe w still) fpost s) : Keeps (Safe w still) (Queue.postCancel fpost gen) s := by
  refine .get ?_
  split
  · refine .attempt (post.bind fun _ t after => .modify ?_)
    exact after.frame rfl rfl rfl rfl
  · exact .pure safe

/-- If the invariant holds once the parked requests have been called back and the pre step is done, the rest of `cancel`
keeps it. -/
theorem cancel_keeps {I J : State → Prop} {fpre fpost : Exec State Unit} {till : Option Req}
    (cancels : still → ∀ s cur, w.held s → w.held (s.log (.cancel cur)))
    (flush : Keeps I (Queue.flushFinalized h h.budget) (s.beginCancel till)) (begun : ∀ t, I t → J t)
    (safe : ∀ t, Safe w still t → J t) (pre : ∀ t, I t → Keeps (Safe w still) fpre t)
    (post : ∀ t, Safe w still t → Keeps (Safe w still) fpost t) :
    Keeps J (Queue.cancel h fpre fpost till) s := by
  have rest (t : State) (after : Safe w still t) (kept : Bool) :
      Keeps (Safe w still) (do
        Exec.modify World.endCancel
        Queue.resume h
        when (kept = true) (halt .thrown)) t := by
    refine .modified (.bind (resume_safe withholds ?_) fun _ t after => .when after fun _ => .halt after)
    exact after.frame rfl rfl rfl rfl
  refine .modified (.get ?_)
  rw [Keeps, wp_bind, Queue.cancelLocked, wp_bind, Queue.cancelPending, wp_bind]
  refine wp_mono flush ?_
  rintro (flushed | why) t holds
  · rw [next_done]
    refine wp_mono ((pre t holds).attempt.bind fun _ t after =>
      (cancelWaiting_safe withholds cancels after).bind fun _ _ after => .pure after) ?_
    rintro (kept | why) t after
    · rw [next_done]
      refine wp_mono ((postCancel_safe _ after (post t after)).bind fun _ _ after => .pure after) ?_
      rintro (kept | why) t after
      · exact (rest t after kept).mono safe
      · exact safe t after
    · exact safe t after
  · exact begun t holds

end Queue

/-! ### The stream -/

theorem safe_false : Safe w False s ↔ Exposed w s := by simp [Safe]

theorem Safe.handled (safe : Safe w still s) (handled : Handled s t) : Safe w still t := by
  obtain ⟨owner, rfl, _⟩ := handled
  exact safe.frame rfl rfl rfl rfl

theorem Safe.local {c : Exec State Unit} (safe : Safe w still s) (inner : Local c) :
    Keeps (Safe w still) c s := wp_mono (inner s) fun _ _ done => safe.handled done.2

theorem zero_safe (safe : Safe w still s) (flags : Flags) (setup : Setup) : Safe w still
    { s.log (.own (.zero s.requests)) with owner := { s.owner with flags, wqSize := 0, setup } } :=
  (safe.log (e := .own (.zero s.requests)) trivial).frame rfl rfl rfl rfl

theorem noting_safe (clear : Bool) {call : Exec State Unit} (body : Keeps (Safe w still) call s) :
    Keeps (Safe w still) (noting clear call) s :=
  .get (.scopeGuard body fun _ after => .modify (after.frame rfl rfl rfl rfl))

section Stream
variable (withholds : Withholds w h)
include withholds

private theorem flush_exposed (exposed : Exposed w s) : Keeps (Exposed w) (Queue.flushFinalized h h.budget) s :=
  flushFinalized_keeps (fun _ cur _ exposed _ => exposed.later [.notify cur .canceled] rfl)
    (fun s cur exposed => (withholds.notify False s cur _ (.inl exposed)).mono fun _ => safe_false.mp)
    h.budget s exposed

/-- `reset()` and `clear()`. -/
theorem wipe_exposed (since : ∃ new, s.trace = new ++ w.base) {fpost : Exec State Unit}
    (post : ∀ t, Safe w False t → Keeps (Safe w False) fpost t) :
    Keeps (Exposed w) (do note .resetCall; Queue.cancel h (pure ()) fpost none) s := by
  have called : Exposed w (s.log (.own .resetCall)) := exposed_of_since since w.reset
  refine .modified (cancel_keeps withholds (I := Exposed w) nofun ?_ (fun _ => id) (fun _ => safe_false.mp) ?_ post)
  · exact flush_exposed withholds (called.later [] rfl)
  · exact fun t exposed => .pure (.inl exposed)

theorem push_safe (safe : Safe w still s) (unlinked : Unlinked s other) (f : Handle → Handle) :
    Keeps (Safe w still) (pushWith h other f) s := by
  refine safe.cases fun still safe held => ?_
  have apart (holds : still) : w.apart other := w.unlinked (held holds) unlinked
  refine .modified (pushed_safe withholds ?_ (List.mem_append_right _ List.mem_cons_self) apart)
  refine safe.move [.push other] rfl fun holds held => w.enqueue ?_ (apart holds)
  exact w.frame held rfl rfl rfl rfl

theorem pushNew_safe (safe : Safe w still s) {f : ℕ → Req} (named : ∀ n, (f n).id = n) :
    Keeps (Safe w still) (pushNew h f) s :=
  .get (push_safe withholds safe (freshId_unlinked s named) id)

private theorem finalizeHandleConnection_safe (safe : Safe w still s) (err : Option Err) :
    Keeps (Safe w still) (finalizeHandleConnection h err none) s :=
  wp_local (Local.setConnectResult _) fun _ t handled => withholds.user still t (safe.handled handled)

theorem runOp_safe (op : Op) (safe : Safe w still s) : Keeps (Safe w still) (runOp h op) s := by
  have wiped {fpost : Exec State Unit} (post : ∀ t, Safe w False t → Keeps (Safe w False) fpost t) :
      Keeps (Safe w still) (do note .resetCall; Queue.cancel h (pure ()) fpost none) s :=
    (wipe_exposed withholds safe.since post).mono fun _ => .inl
  cases op with
  | connect name timeout => exact .get (.when safe fun unlinked => push_safe withholds safe unlinked id)
  | write id bufs => exact .get (.when safe fun unlinked => push_safe withholds safe unlinked _)
  | shutdown id timeout => exact .get (.when safe fun unlinked => push_safe withholds safe unlinked _)
  | runInOrder =>
    refine .get ?_
    split
    · exact .modified (withholds.user still _ (safe.log trivial))
    · exact pushNew_safe withholds safe fun _ => rfl
  | disconnect =>
    refine .get ?_
    split
    · exact .modify (zero_safe safe _ _)
    · split
      · exact noting_safe false (wiped fun t safe => .modify (zero_safe safe _ _))
      · exact pushNew_safe withholds safe fun _ => rfl
  | reset => exact noting_safe false (wiped fun t safe => .modify (zero_safe safe _ _))
  | clear => exact noting_safe true (wiped fun t safe => .modify (zero_safe safe _ _))
  | readStart => exact safe.local (.bind (.setFlags _) fun _ => .bind .readStart fun _ => .pure ())
  | readStop => exact safe.local (.setFlags _)
  | opened => exact safe.local (.bind (.setConnectResult _) fun _ => .pure ())
  | accept filtered =>
    refine wp_local (Local.setFlags _) fun _ t handled => ?_
    split
    · exact pushNew_safe withholds (safe.handled handled) fun _ => rfl
    · exact finalizeHandleConnection_safe withholds (safe.handled handled) none

theorem user_safe (safe : Safe w still s) : Keeps (Safe w still) (user h) s := by
  refine wp_local Local.nextAct fun act t handled => ?_
  have after := safe.handled handled
  cases act with
  | ret | throw | stop => exact after
  | op op => exact (runOp_safe withholds op after).bind fun _ t after => withholds.user still t after

private theorem onEstablish_safe (safe : Safe w still s) (other : Req) : Keeps (Safe w still) (onEstablish h other) s :=
  (user_safe withholds safe).attempt.bind fun _ _ after =>
    .when after fun _ => .modified (.halt (after.log trivial))

/-- The completion of a connect may cancel the queue. -/
theorem finalizeHandleConnect_exposed (exposed : Exposed w s) (err : Option Err) (other : Req) :
    Keeps (Exposed w) (finalizeHandleConnect h err other) s := by
  have done (t : State) (exposed : Exposed w t) (f : Fn) : Keeps (Exposed w) (Queue.done h other f) t :=
    (done_safe withholds (.inl exposed) other f).mono fun _ => safe_false.mp
  refine wp_local (Local.setConnectResult _) fun startErr t handled => ?_
  refine wp_local (Local.stopConnectTimer other) fun _ u stopped => ?_
  have after : Exposed w u := safe_false.mp (((safe_false.mpr exposed).handled handled).handled stopped)
  refine Keeps.get ?_
  split
  · exact done u after _
  · refine cancel_keeps withholds (I := Exposed w) nofun ?_ (fun _ => id) (fun _ => safe_false.mp)
      (fun t exposed => (done t exposed _).mono fun _ => .inl) fun t safe => .modify (zero_safe safe _ _)
    exact flush_exposed withholds (after.later [] rfl)

section

variable (safe : Safe w still s) (member : other ∈ s.requests)

include safe member

theorem handleEvent_safe (err : Option Err) : Keeps (Safe w still) (handleEvent h other err) s := by
  cases other with
  | connect id timeout =>
    have exposed : Exposed w (s.log (.own (.connectEvent (.connect id timeout)))) := by
      rcases safe with exposed | ⟨_, held⟩
      · exact exposed.later [.own (.connectEvent (.connect id timeout))] rfl
      · exact exposed_of_since (w.since held) (w.connect held member)
    refine .modified (wp_local (Local.when (.setFlags _)) fun _ t handled => ?_)
    have begun : Safe w False t := (safe_false.mpr exposed).handled handled
    refine Keeps.seq (onEstablish_safe withholds begun _) (fun _ after => .inl (safe_false.mp after))
      fun _ u after => ?_
    exact (finalizeHandleConnect_exposed withholds (safe_false.mp after) err _).mono fun _ => .inl
  | write id bufs =>
    exact wp_local (Local.when (.setFlags _)) fun _ t handled => done_safe withholds (safe.handled handled) _ _
  | shutdown id timeout =>
    refine wp_local (Local.setShutdown _) fun _ t handled => ?_
    refine wp_local (Local.stopShutdownTimer _) fun _ u stopped => ?_
    exact done_safe withholds ((safe.handled handled).handled stopped) _ _
  | _ => exact Keeps.pure safe

private theorem submit_safe : Keeps (Safe w still) (submit h other) s := by
  refine wp_local Local.nextReply fun reply t handled => ?_
  have after := safe.handled handled
  obtain ⟨owner, rfl, _⟩ := handled
  cases reply with
  | pending => exact after.frame rfl rfl rfl rfl
  | failed err => exact after.frame rfl rfl rfl rfl
  | sync err => exact (handleEvent_safe withholds after member err).ignoring

private theorem submitShutdown_safe : Keeps (Safe w still) (submitShutdown h other) s := by
  refine wp_local Local.nextReply fun reply t handled => ?_
  have after := safe.handled handled
  obtain ⟨owner, rfl, _⟩ := handled
  cases reply with
  | pending => exact after.frame rfl rfl rfl rfl
  | failed err => exact (handleEvent_safe withholds after member _).ignoring
  | sync err => exact (handleEvent_safe withholds after member err).ignoring

end

omit withholds in
theorem requireWriteState_keeps {I : State → Prop} {rest : Exec State Unit}
    (delayed : I (World.delay (.cancel other .notConnected) s)) (body : Keeps I rest s) :
    Keeps I (requireWriteState other rest) s := by
  refine .get ?_
  split
  · exact .modify delayed
  · exact body

private theorem exec_safe (safe : Safe w still s) (member : other ∈ s.requests) :
    Keeps (Safe w still) (exec h other) s := by
  have delayed : Safe w still (World.delay (.cancel other .notConnected) s) := safe.frame rfl rfl rfl rfl
  cases other with
  | connect id timeout =>
    refine .modified (.seq (I := fun t => Safe w still t ∧ .connect id timeout ∈ t.requests)
      (.when ⟨safe.frame rfl rfl rfl rfl, member⟩ fun _ => .modify ⟨safe.frame rfl rfl rfl rfl, member⟩)
      (fun _ after => after.1) fun _ t after => submit_safe withholds after.1 after.2)
  | write id bufs =>
    refine requireWriteState_keeps delayed (.modified (submit_safe withholds ?_ member))
    exact (safe.log (e := .own (.passed (.write id bufs) s.owner.wqSize)) trivial).frame rfl rfl rfl rfl
  | shutdown id timeout =>
    refine requireWriteState_keeps delayed (.modified (submitShutdown_safe withholds ?_ member))
    exact safe.frame rfl rfl rfl rfl
  | disconnect id => exact done_safe withholds safe _ _
  | accept id => exact safe.frame rfl rfl rfl rfl
  | runInOrder id => exact done_safe withholds safe _ _

private theorem cancel_safe (safe : Safe w still s) (member : other ∈ s.requests) :
    Keeps (Safe w still) (cancel h other .canceled) s := by
  cases other with
  | connect | write | runInOrder => exact handleEvent_safe withholds safe member (some .canceled)
  | disconnect | accept => exact done_safe withholds safe _ _
  | shutdown id timeout =>
    refine .get ?_
    split
    · refine wp_local (Local.setTimedOut _ false) fun _ t handled => ?_
      have after := safe.handled handled
      obtain ⟨owner, rfl, _⟩ := handled
      exact handleEvent_safe withholds after member _
    · exact handleEvent_safe withholds safe member _

private theorem notify_safe (safe : Safe w still s) (other : Req) (err : Err) :
    Keeps (Safe w still) (notify h other err) s := by
  cases other with
  | connect | write | shutdown => exact user_safe withholds safe
  | _ => exact Keeps.pure safe

private theorem call_safe (safe : Safe w still s) (f : Fn) : Keeps (Safe w still) (call h f) s := by
  cases f with
  | notifyOn | code => exact user_safe withholds safe
  | reset => exact .modify (zero_safe safe _ _)
  | nothing => exact Keeps.pure safe

end Stream

theorem members_withholds (w : Watch) (n : ℕ) : Withholds w (members n) := by
  induction n with
  | zero =>
    exact ⟨fun _ _ _ safe _ => safe, fun _ _ _ safe _ => safe, fun _ _ _ _ safe => safe, fun _ _ _ safe => safe,
      fun _ _ safe => safe⟩
  | succ n ih =>
    exact ⟨fun _ _ _ safe member => exec_safe ih safe member,
      fun _ _ _ safe member => cancel_safe ih safe member,
      fun _ _ other err safe => notify_safe ih safe other err, fun _ _ f safe => call_safe ih safe f,
        fun _ _ => user_safe ih⟩

end UniEvent.Stream
