import UniEvent.Program.Keep
import UniEvent.Proofs.StreamCalls

/-! # Invariants of all the code of a stream

`Closed I H` lists the moves under which a predicate must be closed for all code to keep it, callbacks and nested calls
included. The predicate may except the requests whose `push` has not ended yet; where control does not come back, `H` is
what is left of it. Closures run by `done` need care only if the recursion counter is not over its limit.
-/

namespace UniEvent.Stream

open Program Program.Exec

/-- Neither a closure run by `done` or the loop, nor a parked request that is not canceled. -/
def Ordinary : Event Req Fn Note → Prop
  | .finish _ _ _ | .fire _ _ => False
  | .notify _ err => err = .canceled
  | _ => True

structure Closed (I : List Req → State → Prop) (H : State → Prop) : Prop where
  frame : ∀ {X s t}, I X s → t.trace = s.trace → t.requests = s.requests → t.async = s.async →
    t.resumeRecursion = s.resumeRecursion → I X t
  log : ∀ {X s e}, I X s → Ordinary e → I X (s.log e)
  enqueue : ∀ {X s} req, I X s → I (req :: X) (s.enqueue req)
  pushed : ∀ {X s} req, I (req :: X) s → I X (s.setAsync req true)
  retire : ∀ {X s} req, I X s → I X (s.retire req)
  /-- Where a closure may be run, nothing depends on the log or the counter. -/
  finish : ∀ {X s}, I X s → s.resumeRecursion ≤ Queue.SPLIT_RECURSION →
    (∀ {X t} e, I X t → I X (t.log e)) ∧ (∀ {X t} n, I X t → I X { t with resumeRecursion := n })
  weaker : ∀ {X s}, I X s → H s

/-- The requests that are executed inside their `push`. -/
def Req.submitted : Req → Bool
  | .connect _ _ | .write _ _ | .shutdown _ _ | .accept _ => true
  | .disconnect _ | .runInOrder _ => false

/-- What the members keep. -/
structure Persists (I : List Req → State → Prop) (H : State → Prop) (h : Members) : Prop where
  exec : ∀ {X s} req, I X s → Leaves (I X) H (h.exec req) s
  quiet : ∀ {s} req, req.submitted = true → wp (h.exec req) (fun o _ => o ≠ .halt .thrown) s
  cancel : ∀ {X s} req err, I X s → Leaves (I X) H (h.cancel req err) s
  notify : ∀ {X s} req err, I X s → Leaves (I X) H (h.notify req err) s
  call : ∀ {X s} f, I X s → Leaves (I X) H (h.call f) s
  user : ∀ {X s}, I X s → Leaves (I X) H h.user s

variable {I : List Req → State → Prop} {H : State → Prop} {X : List Req} {s t : State} {h : Members} {req : Req}

/-! ### The queue -/

section Queue
variable (closed : Closed I H) (persists : Persists I H h)
include closed persists

private theorem start_persists (holds : I X s) (req : Req) : Leaves (I X) H (Queue.start h req) s :=
  .modified (persists.exec req (closed.log holds trivial))

theorem resume_persists (holds : I X s) : Leaves (I X) H (Queue.resume h) s := by
  refine .get ?_
  split
  · exact .pure holds
  · exact .when holds fun _ => start_persists closed persists holds _

/-- The request counts as pushed when the call comes back; nothing is thrown before. -/
theorem pushed_persists (holds : I (req :: X) s) (quiet : s.requests.length = 1 → req.submitted = true) :
    Leaves (I X) H (Queue.pushed h req) s := by
  have started (alone : s.requests.length = 1) : wp (Queue.start h req)
      (fun o t => (I (req :: X) t ∨ ¬ o.Returned ∧ H t) ∧ o ≠ .halt .thrown) s :=
    wp_and (start_persists closed persists holds req)
      (persists.quiet (s := s.log (.exec req s.requests)) req (quiet alone))
  refine .get ?_
  rw [Leaves, wp_bind, wp_when]
  refine ⟨fun alone => wp_mono (started alone.1) ?_, fun _ => .inl (closed.pushed req holds)⟩
  rintro (value | why) t ⟨holds | ⟨lost, halted⟩, quiet⟩
  · exact .inl (closed.pushed req holds)
  · exact absurd trivial lost
  · exact .inr ⟨fun returned => quiet (congrArg Outcome.halt returned), closed.weaker holds⟩
  · exact .inr ⟨lost, halted⟩

theorem pushWith_persists (holds : I X s) (f : Handle → Handle) (quiet : s.requests = [] → req.submitted = true) :
    Leaves (I X) H (pushWith h req f) s := by
  have updated : I X { s with owner := f s.owner } := closed.frame holds rfl rfl rfl rfl
  refine .modified (pushed_persists closed persists (closed.enqueue req updated) fun alone => quiet ?_)
  have single : (s.requests ++ [req]).length = 1 := alone
  rw [List.length_append, List.length_singleton] at single
  exact List.length_eq_zero_iff.mp (by omega)

theorem release_persists (counts : ∀ {X t} n, I X t → I X { t with resumeRecursion := n }) (holds : I X s) :
    Leaves (I X) H (Queue.release h) s := by
  refine .modified (.modified (.bind (resume_persists closed persists ?_) fun _ t after => .modify (counts _ after)))
  exact counts (s.resumeRecursion + 1) (closed.frame (t := s.unlock) holds rfl rfl rfl rfl)

private theorem complete_persists (holds : I X s) (req : Req) (f : Fn) : Leaves (I X) H (Queue.complete h req f) s := by
  refine .get ?_
  split
  · exact .modify (closed.frame holds rfl rfl rfl rfl)
  · split
    · rename_i shallow _
      obtain ⟨logs, counts⟩ := closed.finish holds (Nat.le_of_not_lt shallow)
      have locked : I X s.lock := closed.frame holds rfl rfl rfl rfl
      exact .modified (.modified (.scopeGuard (persists.call f (logs _ locked))
        fun _ after => release_persists closed persists counts after))
    · exact .modify (closed.frame holds rfl rfl rfl rfl)

theorem done_persists (holds : I X s) (req : Req) (f : Fn) : Leaves (I X) H (Queue.done h req f) s := by
  have logged : I X (s.log (.done req s.requests)) := closed.log holds trivial
  exact .modified
    (.get (.asserted logged fun _ => .modified (complete_persists closed persists (closed.retire req logged) req f)))

theorem flushFinalized_persists (budget : ℕ) : ∀ s, I X s → Leaves (I X) H (Queue.flushFinalized h budget) s := by
  induction budget with
  | zero => exact fun s holds => .halt holds
  | succ budget ih =>
    intro s holds
    refine .get ?_
    split
    · exact .pure holds
    · rename_i cur rest parked
      have flushed : I X (s.flush cur .canceled) :=
        closed.frame (closed.log (e := .notify cur .canceled) holds rfl) rfl rfl rfl rfl
      refine .modified (.bind (persists.notify cur .canceled flushed).attempt fun _ t after => ?_)
      exact (ih t after).bind fun _ _ after => .pure after

theorem cancelRequests_persists (budget : ℕ) : ∀ s, I X s → Leaves (I X) H (Queue.cancelRequests h budget) s := by
  induction budget with
  | zero => exact fun s holds => .halt holds
  | succ budget ih =>
    intro s holds
    refine .get ?_
    split
    · exact .halt holds
    · rename_i cur rest requests
      have logged : I X (s.log (.cancel cur)) := closed.log holds trivial
      refine .modified (.bind (persists.cancel cur .canceled logged).attempt fun _ t after => ?_)
      refine .get (.asserted after fun _ => ?_)
      split
      · exact (ih t after).bind fun _ _ after => .pure after
      · exact .pure after

theorem cancel_persists {fpre fpost : Exec State Unit} {till : Option Req} (holds : I X s)
    (pre : ∀ t, I X t → Leaves (I X) H fpre t) (post : ∀ t, I X t → Leaves (I X) H fpost t) :
    Leaves (I X) H (Queue.cancel h fpre fpost till) s := by
  have begun : I X (s.beginCancel till) := closed.frame holds rfl rfl rfl rfl
  have pending : Leaves (I X) H (Queue.cancelPending h fpre) (s.beginCancel till) := by
    refine .bind (flushFinalized_persists closed persists _ _ begun) fun _ t after => ?_
    refine .bind (pre t after).attempt fun _ t after => .bind ?_ fun _ _ after => .pure after
    refine .get ?_
    split
    · exact cancelRequests_persists closed persists _ _ after
    · exact .pure after
  refine .modified
    (.get (.bind (.bind pending fun _ t after => .bind ?_ fun _ _ after => .pure after) fun _ t after => ?_))
  · refine .get ?_
    split
    · exact .attempt ((post t after).bind fun _ t after => .modify (closed.frame after rfl rfl rfl rfl))
    · exact .pure after
  · have ended : I X t.endCancel := closed.frame after rfl rfl rfl rfl
    exact .modified (.bind (resume_persists closed persists ended) fun _ _ after => .when after fun _ => .halt after)

end Queue

/-! ### The stream -/

section Stream
variable (closed : Closed I H)
include closed

theorem Handled.persists (handled : Handled s t) (holds : I X s) : I X t := by
  obtain ⟨owner, rfl, _⟩ := handled
  exact closed.frame holds rfl rfl rfl rfl

theorem local_persists {c : Exec State Unit} (holds : I X s) (inner : Local c) : Leaves (I X) H c s :=
  wp_mono (inner s) fun _ _ done => .inl (done.2.persists closed holds)

theorem zero_persists (holds : I X s) (flags : Flags) (setup : Setup) : I X
    { s.log (.own (.zero s.requests)) with owner := { s.owner with flags, wqSize := 0, setup } } :=
  closed.frame (closed.log (e := .own (.zero s.requests)) holds trivial) rfl rfl rfl rfl

theorem noting_persists (clear : Bool) {call : Exec State Unit} (body : Leaves (I X) H call s) :
    Leaves (I X) H (noting clear call) s :=
  .get (.scopeGuard body fun _ after => .modify (closed.frame after rfl rfl rfl rfl))

variable (persists : Persists I H h)
include persists

theorem wipe_persists (holds : I X s) {fpost : Exec State Unit} (post : ∀ t, I X t → Leaves (I X) H fpost t) :
    Leaves (I X) H (do note .resetCall; Queue.cancel h (pure ()) fpost none) s :=
  .modified (cancel_persists closed persists (closed.log (e := .own .resetCall) holds trivial) (fun _ => .pure) post)

theorem runOp_persists (op : Op) (holds : I X s) : Leaves (I X) H (runOp h op) s := by
  have zeroed (t : State) (holds : I X t) (flags : Flags) (setup : Setup) := zero_persists closed holds flags setup
  have busy {req : Req} (some : s.requests ≠ []) : s.requests = [] → req.submitted = true :=
    fun none => absurd none some
  cases op with
  | connect name timeout => exact .get (.when holds fun _ => pushWith_persists closed persists holds id fun _ => rfl)
  | write id bufs => exact .get (.when holds fun _ => pushWith_persists closed persists holds _ fun _ => rfl)
  | shutdown id timeout => exact .get (.when holds fun _ => pushWith_persists closed persists holds _ fun _ => rfl)
  | runInOrder =>
    refine .get ?_
    split
    · exact .modified (persists.user (closed.log (e := .own (.runNow s.finalizedRequests)) holds trivial))
    · rename_i some
      exact .get (pushWith_persists closed persists holds id (busy some))
  | disconnect =>
    refine .get ?_
    split
    · exact .modify (zeroed s holds _ _)
    · rename_i some
      split
      · exact noting_persists closed false
          (wipe_persists closed persists holds fun t after => .modify (zeroed t after _ _))
      · exact .get (pushWith_persists closed persists holds id (busy some))
  | reset =>
    exact noting_persists closed false (wipe_persists closed persists holds fun t after => .modify (zeroed t after _ _))
  | clear =>
    exact noting_persists closed true (wipe_persists closed persists holds fun t after => .modify (zeroed t after _ _))
  | readStart => exact local_persists closed holds (.bind (.setFlags _) fun _ => .bind .readStart fun _ => .pure ())
  | readStop => exact local_persists closed holds (.setFlags _)
  | opened => exact local_persists closed holds (.bind (.setConnectResult _) fun _ => .pure ())
  | accept filtered =>
    refine wp_local (Local.setFlags _) fun _ t handled => ?_
    have after := handled.persists closed holds
    split
    · exact Leaves.get (pushWith_persists closed persists after id fun _ => rfl)
    · exact wp_local (Local.setConnectResult _) fun _ u last => persists.user (last.persists closed after)

section

variable (holds : I X s)

include holds

theorem user_persists : Leaves (I X) H (user h) s := by
  refine wp_local Local.nextAct fun act t handled => ?_
  have after := handled.persists closed holds
  cases act with
  | ret | throw | stop => exact .inl after
  | op op => exact (runOp_persists closed persists op after).bind fun _ t after => persists.user after

theorem finalizeHandleConnect_persists (err : Option Err) (req : Req) :
    Leaves (I X) H (finalizeHandleConnect h err req) s := by
  refine wp_local (Local.setConnectResult _) fun startErr t handled => ?_
  refine wp_local (Local.stopConnectTimer req) fun _ u stopped => ?_
  have after := stopped.persists closed (handled.persists closed holds)
  refine Leaves.get ?_
  split
  · exact done_persists closed persists after _ _
  · exact cancel_persists closed persists after (fun _ after => done_persists closed persists after _ _)
      fun t after => .modify (zero_persists closed after _ _)

theorem handleEvent_persists (req : Req) (err : Option Err) : Leaves (I X) H (handleEvent h req err) s := by
  cases req with
  | connect id timeout =>
    refine .modified (wp_local (Local.when (.setFlags _)) fun _ t handled => ?_)
    have begun := handled.persists closed (closed.log (e := .own (.connectEvent (.connect id timeout))) holds trivial)
    refine Leaves.bind (.bind (user_persists closed persists begun).attempt fun failed u after => ?_)
      fun _ u after => finalizeHandleConnect_persists closed persists after err _
    exact .when after fun _ =>
      .modified (.halt (closed.log (e := .own (.connectLeft (.connect id timeout))) after trivial))
  | write id bufs =>
    exact wp_local (Local.when (.setFlags _)) fun _ t handled =>
      done_persists closed persists (handled.persists closed holds) _ _
  | shutdown id timeout =>
    refine wp_local (Local.setShutdown _) fun _ t handled => ?_
    refine wp_local (Local.stopShutdownTimer _) fun _ u stopped => ?_
    exact done_persists closed persists (stopped.persists closed (handled.persists closed holds)) _ _
  | _ => exact Leaves.pure holds

private theorem exec_persists (req : Req) : Leaves (I X) H (exec h req) s := by
  have delayed (m : State) (holds : I X m) (err : Err) : I X (World.delay (.cancel req err) m) :=
    closed.frame holds rfl rfl rfl rfl
  have submits (m : State) (holds : I X m) : Leaves (I X) H (submit h req) m := by
    refine wp_local Local.nextReply fun reply t handled => ?_
    have after := handled.persists closed holds
    cases reply with
    | pending => exact .inl (closed.frame after rfl rfl rfl rfl)
    | failed err => exact .inl (delayed t after err)
    | sync err => exact (handleEvent_persists closed persists after req err).ignoring
  have requires {rest : Exec State Unit} (body : Leaves (I X) H rest s) :
      Leaves (I X) H (requireWriteState req rest) s := by
    refine .get ?_
    split
    · exact .modify (delayed s holds _)
    · exact body
  cases req with
  | connect id timeout =>
    have connecting : I X { s with owner := { s.owner with flags := { s.owner.flags with connecting := true } } } :=
      closed.frame holds rfl rfl rfl rfl
    refine .modified (.bind (.when connecting fun _ => .modify ?_) fun _ t after => submits t after)
    exact closed.frame holds rfl rfl rfl rfl
  | write id bufs =>
    have passed := closed.log (e := .own (.passed (.write id bufs) s.owner.wqSize)) holds trivial
    exact requires (.modified (submits _ (closed.frame passed rfl rfl rfl rfl)))
  | shutdown id timeout =>
    refine requires (wp_local (Local.setFlags _) fun _ t handled => ?_)
    refine wp_local Local.nextReply fun reply u last => ?_
    have after := last.persists closed (handled.persists closed holds)
    cases reply with
    | pending => exact .inl (closed.frame after rfl rfl rfl rfl)
    | failed err => exact (handleEvent_persists closed persists after _ _).ignoring
    | sync err => exact (handleEvent_persists closed persists after _ _).ignoring
  | disconnect id => exact done_persists closed persists holds _ _
  | accept id => exact .inl (closed.frame holds rfl rfl rfl rfl)
  | runInOrder id => exact done_persists closed persists holds _ _

theorem cancelMember_persists (req : Req) (err : Err) : Leaves (I X) H (cancel h req err) s := by
  cases req with
  | connect | write | runInOrder => exact handleEvent_persists closed persists holds _ (some err)
  | disconnect | accept => exact done_persists closed persists holds _ _
  | shutdown id timeout =>
    refine .get ?_
    split
    · exact wp_local (Local.setTimedOut _ false) fun _ t handled =>
        handleEvent_persists closed persists (handled.persists closed holds) _ _
    · exact handleEvent_persists closed persists holds _ _

private theorem notify_persists (req : Req) (err : Err) : Leaves (I X) H (notify h req err) s := by
  cases req with
  | connect | write | shutdown => exact user_persists closed persists holds
  | _ => exact Leaves.pure holds

private theorem call_persists (f : Fn) : Leaves (I X) H (call h f) s := by
  cases f with
  | notifyOn | code => exact user_persists closed persists holds
  | reset => exact .modify (zero_persists closed holds _ _)
  | nothing => exact Leaves.pure holds

end

end Stream

/-- The backend keeps the exceptions of what it reports inside a call. -/
theorem exec_quiet (submitted : req.submitted = true) : wp (exec h req) (fun o _ => o ≠ .halt .thrown) s := by
  have submits (m : State) : wp (submit h req) (fun o _ => o ≠ .halt .thrown) m := by
    refine wp_local Local.nextReply fun reply t _ => ?_
    cases reply with
    | pending | failed => rintro ⟨⟩
    | sync err => exact wp_ignoring_quiet _ t
  have requires {rest : Exec State Unit} (body : wp rest (fun o _ => o ≠ .halt .thrown) s) :
      wp (requireWriteState req rest) (fun o _ => o ≠ .halt .thrown) s := by
    simp only [requireWriteState, wp_bind, wp_get, next_done]
    split
    · rintro ⟨⟩
    · exact body
  cases req with
  | connect id timeout =>
    refine wp_local (Local.setFlags _) fun _ t _ => ?_
    rw [wp_bind, wp_when]
    exact ⟨fun _ => submits _, fun _ => submits t⟩
  | write id bufs => exact requires (submits _)
  | shutdown id timeout =>
    refine requires (wp_local (Local.setFlags _) fun _ t _ => wp_local Local.nextReply fun reply u _ => ?_)
    cases reply with
    | pending => rintro ⟨⟩
    | failed | sync => exact wp_ignoring_quiet _ u
  | accept id => rintro ⟨⟩
  | disconnect | runInOrder => cases submitted

theorem members_persists (closed : Closed I H) (n : ℕ) : Persists I H (members n) := by
  induction n with
  | zero =>
    exact ⟨fun _ holds => .inl holds, fun _ _ thrown => (nomatch thrown), fun _ _ holds => .inl holds,
      fun _ _ holds => .inl holds, fun _ holds => .inl holds, fun holds => .inl holds⟩
  | succ n ih =>
    exact ⟨fun req holds => exec_persists closed ih holds req, fun _ => exec_quiet,
      fun req err holds => cancelMember_persists closed ih holds req err,
      fun req err holds => notify_persists closed ih holds req err,
      fun f holds => call_persists closed ih holds f, fun holds => user_persists closed ih holds⟩

end UniEvent.Stream
