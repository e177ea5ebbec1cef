import UniEvent.Proofs.StreamTimeoutCancel

/-! # The shutdown times out

When nothing waits before the shutdown it is reported itself, still under a lock if requests were canceled before. The
code of its callback may push requests; if it calls `reset()`, nothing more is owed. Otherwise the queue is let go, and
the next request is executed.
-/

namespace UniEvent.Stream.Timeout

open Program Program.Exec

variable {c : Course} {g : Stage} {s t : State} {h : Members} {n : ℕ}

/-- An event that touches nothing behind the shutdown, and with which no connect leaves. -/
theorem Late.log (late : Late c n s) {e : Event Req Fn Note} (untouched : ¬ Touches c.post e) : Late c n (s.log e) := by
  obtain ⟨events, trace, told, orderly, done, before⟩ := late.owed
  refine ⟨⟨e :: events, logged_trace e trace, ?_, leavesCompleted_append [e] orderly done, ?_, ?_⟩, late.queue,
    late.locked⟩
  · rw [← List.singleton_append, reports_append]
    exact told.trans (List.suffix_append _ _)
  · intro req member
    rw [← List.singleton_append, dones, List.filterMap_append]
    exact List.mem_append_right _ (done req member)
  · intro e' member
    rcases List.mem_cons.mp member with rfl | old
    · exact untouched
    · exact before e' old

theorem Late.guarded (held : 0 < n) : Guarded c (Late c n) where
  locked late := by rw [late.locked]; exact held
  owner _ late _ := { late with }
  log _ late _ := late.log id
  push {s} req owner late _ _ := by
    have pushed : Late c n (s.log (.push req)) := late.log id
    obtain ⟨new, queue⟩ := late.queue
    refine ⟨pushed.owed, ⟨new ++ [req], ?_⟩, late.locked⟩
    change s.requests ++ [req] = _
    rw [queue, List.append_assoc]

/-- After `reset()` nothing is owed to the requests behind the shutdown. -/
theorem Late.called (late : Late c n s) : Fulfilled c (s.log (.own .resetCall)) := by
  obtain ⟨events, trace, told, orderly, done, _⟩ := late.owed
  refine ⟨.own .resetCall :: events, logged_trace _ trace, told, ⟨trivial, orderly⟩, done, fun none => ?_⟩
  rw [resets, List.countP_cons_of_pos (by simp)] at none
  cases none

private theorem members_late (c : Course) (depth : ℕ) : ∀ {n s}, 0 < n → Late c n s →
    wp (members depth).user (After c (Late c n)) s := by
  induction depth with
  | zero => exact fun _ _ => .exhausted
  | succ depth ih =>
    intro n s held late
    have keeping := members_keeping c depth
    refine user_after (Late.guarded held) keeping (fun _ late => ih held late) (fun s fpost late post => ?_) late
    have kept : Program.Leaves (Fulfilled c) (Fulfilled c) (Queue.cancel (members depth) (pure ()) fpost none)
        (s.log (.own .resetCall)) :=
      cancel_persists (X := []) (fulfilled_closed c) keeping late.called (fun _ => .pure)
        fun t fulfilled => wp_mono (post t fulfilled) fun _ _ => .inl
    change wp (Queue.cancel (members depth) (pure ()) fpost none) _ (s.log (.own .resetCall))
    exact wp_mono kept.keeps fun _ _ => .fulfilled

private theorem call_late (depth : ℕ) (req : Req) (err : Option Err) (held : 0 < n) (late : Late c n s) :
    wp ((members depth).call (.notifyOn req err)) (After c (Late c n)) s := by
  cases depth with
  | zero => exact .exhausted
  | succ depth => exact members_late c (depth + 1) held late

/-! ### The queue is let go -/

theorem Late.fulfilled (late : Late c n s) (handed : c.post = []) : Fulfilled c s := by
  obtain ⟨events, trace, told, orderly, done, _⟩ := late.owed
  exact ⟨events, trace, told, orderly, done, fun _ some => absurd handed some⟩

/-- `resume()` executes the next request. -/
theorem resume_late (keeping : Keeping c h) (late : Late c 0 s) : Keeps (Fulfilled c) (Queue.resume h) s := by
  cases post : c.post with
  | nil => exact (resume_persists (X := []) (fulfilled_closed c) keeping (late.fulfilled post)).keeps
  | cons next rest =>
    obtain ⟨new, queue⟩ := late.queue
    obtain ⟨events, trace, told, orderly, done, untouched⟩ := late.owed
    rw [post, List.cons_append] at queue
    have started : Fulfilled c (s.log (.exec next s.requests)) := by
      refine (⟨.exec next s.requests :: events, logged_trace _ trace, told, ⟨trivial, orderly⟩, done, fun _ _ => ?_⟩ :
        Fulfilled c _)
      exact ⟨[], next, s.requests, events, rfl, by rw [post]; rfl, untouched⟩
    rw [Keeps, Queue.resume, wp_get_bind, queue]
    change wp (when (s.locked = 0) (Queue.start h next)) _ s
    rw [wp_when]
    refine ⟨fun _ => (keeping.exec (X := []) next started).keeps, fun held => absurd late.locked held⟩

/-- The guard of `done` gives a lock back, and lets the queue go if it was the last one. -/
theorem release_late (keeping : Keeping c h) (late : Late c (n + 1) s) :
    wp (Queue.release h) (fun o t => Fulfilled c t ∨ o = .done () ∧ 0 < n ∧ Late c n t) s := by
  have unlocked : s.locked - 1 = n := by rw [late.locked]; exact Nat.add_sub_cancel ..
  have released : Late c n { s.unlock with resumeRecursion := s.resumeRecursion + 1 } :=
    ⟨late.owed, late.queue, unlocked⟩
  rw [Queue.release, wp_modify_bind, wp_modify_bind]
  cases n with
  | zero =>
    refine wp_mono (Keeps.bind (resume_late keeping released) fun _ t fulfilled => .modify ?_) fun _ _ => .inl
    exact fulfilled.later [] rfl
  | succ n =>
    have locked : s.locked - 1 ≠ 0 := by omega
    have after : Late c (n + 1) { s.unlock with resumeRecursion := s.resumeRecursion + 1 - 1 } :=
      ⟨late.owed, late.queue, unlocked⟩
    simp only [Queue.resume, wp_bind, wp_get, next_done]
    split
    · exact .inr ⟨rfl, Nat.succ_pos n, after⟩
    · rw [wp_when]
      exact ⟨fun free => absurd free locked, fun _ => .inr ⟨rfl, Nat.succ_pos n, after⟩⟩

/-- The callback of the shutdown, and the guard of `done` around it. -/
theorem finish_late (depth : ℕ) (req : Req) (err : Option Err) (late : Late c (n + 1) s) :
    wp (scopeGuard ((members depth).call (.notifyOn req err)) (Queue.release (members depth)))
      (After c fun t => 0 < n ∧ Late c n t) s := by
  have keeping := members_keeping c depth
  refine wp_attempt_after (call_late depth req err (Nat.succ_pos n) late) (fun failed t late => ?_)
    fun failed t fulfilled => ?_
  · rw [wp_bind]
    refine wp_mono (release_late keeping late) ?_
    rintro (value | why) u (fulfilled | ⟨same, after⟩)
    · rw [next_done, wp_when]
      exact ⟨fun _ => .fulfilled fulfilled, fun _ => .fulfilled fulfilled⟩
    · rw [next_done, wp_when]
      exact ⟨fun _ => .back rfl after, fun _ => .back trivial after⟩
    · exact .fulfilled fulfilled
    · cases same
  · have released : Keeps (Fulfilled c) (Queue.release (members depth)) t :=
      (release_persists (X := []) (fulfilled_closed c) keeping
        (fun n fulfilled => fulfilled.later [] rfl) fulfilled).keeps
    exact released.bind fun _ _ after => .when after fun _ => .halt after

/-! ### The timer -/

/-- The shutdown at the front is canceled with "timed out". -/
theorem cancel_late (depth : ℕ) (owner : Handle) (last : g.left = []) (waiting : Waiting c g s) :
    wp (cancel (members depth) c.late .timedOut)
      (After c fun t => 0 < g.locked ∧ Late c g.locked t) { s with owner } := by
  change wp (get >>= fun s => if s.owner.timedOut c.late = true ∧ Err.timedOut = .canceled then _ else _) _
    { s with owner }
  rw [wp_get_bind, if_neg (fun both => by cases both.2)]
  exact lateEvent_wp waiting last owner fun owner => finish_late depth _ _ (waiting.late last owner).1

private theorem cancelMember_keeps (depth : ℕ) (req : Req) (err : Err) (fulfilled : Fulfilled c s) :
    Keeps (Fulfilled c) (cancel (members depth) req err) s :=
  (cancelMember_persists (X := []) (fulfilled_closed c) (members_keeping c depth) fulfilled req err).keeps

/-- Nothing else canceled meanwhile, so the post step is run. -/
theorem postCancel_late (depth : ℕ) (kept : Bool) (waiting : Waiting c ⟨[], 1, none, False⟩ s) :
    wp (Queue.postCancel (cancel (members depth) c.late .timedOut) c.gen >>= fun post => pure (kept || post))
      (After c (Late c 1)) s := by
  rw [wp_bind, Queue.postCancel, wp_get_bind, if_pos waiting.gen.symm, ← wp_bind]
  refine wp_attempt_after (W := Late c 1) ?_ (fun _ _ late => .back trivial late) fun _ _ fulfilled => .pure fulfilled
  refine wp_bind_after (cancel_late depth s.owner rfl waiting) (fun _ => And.right) (fun _ t late => ?_)
    fun _ t fulfilled => ?_
  · exact .back trivial ⟨late.2.owed, late.2.queue, late.2.locked⟩
  · exact .modify (fulfilled.later [] rfl)

/-- The cancel up to the last request before the shutdown, with the timeout as its post step. -/
theorem cancelTo_late (depth : ℕ) {prev : Req} (last : c.pre.getLast? = some prev)
    (waiting : Waiting c ⟨c.pre, 0, none, False⟩ s) :
    wp (Queue.cancel (members depth) (pure ()) (cancel (members depth) c.late .timedOut) (some prev))
      (After c fun _ => False) s := by
  have abides := members_abide c depth
  have keeping := members_keeping c depth
  have begun : Waiting c ⟨c.pre, 1, some prev, False⟩ (s.beginCancel (some prev)) :=
    { waiting with locked := congrArg (· + 1) waiting.locked, mark := rfl }
  have loop (t : State) (waiting : Waiting c ⟨c.pre, 1, some prev, False⟩ t) :
      wp (Queue.cancelRequests (members depth) (members depth).budget)
        (After c (Waiting c ⟨[], 1, none, False⟩)) t := by
    refine wp_mono
      (cancelRequests_after abides keeping _ ⟨c.pre, 1, some prev, False⟩ t Nat.one_pos rfl (.inl last) waiting) ?_
    exact fun o u after => after.mono fun _ kept => kept.2
  have pending := cancelPending_after abides keeping Nat.one_pos rfl loop begun
  have post (t : State) (fulfilled : Fulfilled c t) := cancelMember_keeps depth c.late .timedOut fulfilled
  change wp (Queue.cancelLocked (members depth) (pure ()) _ s.cancelGen >>= fun kept => do
    Exec.modify World.endCancel
    Queue.resume (members depth)
    when (kept = true) (halt .thrown)) _ (s.beginCancel (some prev))
  refine wp_bind_kept_after (W := Late c 1) ?_ ?_ (fun kept t late => ?_) fun kept t fulfilled =>
    (cancelEnds_keeps keeping 0 kept post fulfilled).2
  · exact cancelLocked_kept _ _ _ _
  · refine wp_bind_kept_after (cancelPending_kept _ _) pending (fun kept t after => ?_) fun kept t fulfilled =>
      (cancelEnds_keeps keeping _ kept post fulfilled).1
    rw [waiting.gen]
    exact postCancel_late depth kept after
  · have ended : Late c 0 t.endCancel := ⟨late.owed, late.queue, by rw [World.endCancel, World.unlock, late.locked]⟩
    have rest :
      Keeps (Fulfilled c) (Queue.resume (members depth) >>= fun _ => when (kept = true) (halt .thrown)) t.endCancel :=
      .bind (resume_late keeping ended) fun _ _ after => .when after fun _ => .halt after
    rw [wp_modify_bind]
    exact wp_mono rest fun _ _ => .fulfilled

/-- The timer of the shutdown, with its flag as the call sets it. -/
theorem shutdownTimeout_late (depth : ℕ) (waiting : Waiting c ⟨c.pre, 0, none, False⟩
      { s with owner := { s.owner with timedOut := Function.update s.owner.timedOut c.late true } }) :
    wp (shutdownTimeout (members depth) c.late) (After c fun _ => False) s := by
  obtain ⟨new, queue⟩ := waiting.queue
  have absent : c.late ∉ c.pre := by
    have unique := waiting.nodup
    rw [queue] at unique
    exact fun member => (List.nodup_append.mp unique).2.2 c.late member c.late List.mem_cons_self rfl
  have before : (s.requests.takeWhile fun other => decide (other ≠ c.late)) = c.pre := by
    have requests : s.requests = c.pre ++ c.late :: (c.post ++ new) := queue
    rw [requests, List.takeWhile_append_of_pos, List.takeWhile_cons_of_neg, List.append_nil]
    · simp
    · exact fun other member => decide_eq_true fun same => absent (same ▸ member)
  rw [shutdownTimeout, wp_get_bind, before]
  cases last : c.pre.getLast? with
  | none =>
    have timed := cancel_late depth s.owner (List.getLast?_eq_none_iff.mp last) waiting
    refine wp_mono (s := s) timed fun o t after => ?_
    exact after.mono fun _ kept => absurd kept.1 (Nat.lt_irrefl 0)
  | some prev =>
    change wp (update _ >>= fun _ => Queue.cancel _ _ _ _) _ s
    exact cancelTo_late depth last waiting

end UniEvent.Stream.Timeout
