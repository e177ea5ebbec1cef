import UniEvent.Proofs.StreamRequests

/-! # What a cancel of the stream's queue does

Under the lock of `cancel` nothing is executed, so its effect can be told exactly: the parked requests
are notified in order, and the requests up to the mark leave the front in order, each through `done`
once. The exceptions are requests whose `cancel` does not reach `done`: then the assertion behind the
call fails. Unless a callback cancels, that is the case only for a run-in-order request, for a request
that was pushed again and after an exception of `on_establish`.
-/

namespace UniEvent.Stream

open Program Program.Exec

variable {s m t : State} {h : Members} {α β : Type} {Q : Outcome Unit → State → Prop} {notified completed : List Req}
  {o : Outcome α} {check : Req} {req : Req}

/-! ### `done` under a lock -/

private theorem retire_till_eq (s : State) (check : Req) :
    (if s.cancelTill = some check then none else s.cancelTill) =
      s.cancelTill.filter fun req => decide (req ∉ [check]) := by
  cases s.cancelTill with
  | none => rfl
  | some mark => by_cases same : mark = check <;> simp [Option.filter, same]

private theorem opens_done (before : List (Event Req Fn Note)) (check : Req) (requests : List Req) :
    openConnects (.done check requests :: before) =
      (openConnects before).filter fun req => decide (req ∉ [check]) :=
  List.filter_congr fun req _ => by simp

private theorem retire_requests (atFront : s.requests.head? = some check) :
    [check] ++ s.requests.tail = s.requests ++ [] := by
  obtain ⟨rest, requests⟩ := List.head?_eq_some_iff.mp atFront
  simp [requests]

private theorem park_effect (atFront : s.requests.head? = some check) (ordinary : check.isRunInOrder = false) (f : Fn)
    (split : Bool) : Effect [] [check] s (((s.log (.done check s.requests)).retire check).park check f split) where
  requests := ⟨[], retire_requests atFront, rfl⟩
  finalized := ⟨[check], rfl, .refl _⟩
  dones := rfl
  notifies := rfl
  opens := opens_done _ _ s.requests
  till := retire_till_eq s check
  ordinary := by simpa using ordinary
  resets := by simp
  lefts := rfl
  locked := rfl
  gen := rfl

private theorem finish_effect (atFront : s.requests.head? = some check) (ordinary : check.isRunInOrder = false)
    (f : Fn) : Effect [] [check] s
      (((s.log (.done check s.requests)).retire check).log (.finish check f s.finalizedRequests)) where
  requests := ⟨[], retire_requests atFront, rfl⟩
  finalized := ⟨[], (List.append_nil _).symm, List.nil_sublist _⟩
  dones := rfl
  notifies := rfl
  opens := opens_done _ _ s.requests
  till := retire_till_eq s check
  ordinary := by simpa using ordinary
  resets := by simp
  lefts := rfl
  locked := rfl
  gen := rfl

/-- The effect of code that ran under one more lock. -/
theorem Drained.unlock (drained : Drained notified completed s.lock t) : Drained notified completed s t.unlock := by
  refine drained.imp (fun effect => ?_) id
  have locked : t.locked - 1 = s.locked := by rw [effect.locked]; exact Nat.add_sub_cancel ..
  exact { effect with locked := locked }

/-- Under a lock the guard of `done` only leaves its own. -/
theorem release_held (held : 0 < s.unlock.locked) (goal : Q (.done ()) s.unlock) : wp (Queue.release h) Q s := by
  simp only [Queue.release, wp_bind, wp_modify, next_done, Queue.resume, wp_get]
  split
  · exact goal
  · rw [wp_when]
    exact ⟨fun free => absurd free (Nat.ne_of_gt held), fun _ => goal⟩

theorem done_yields (sound : Sound h) (wf : Wf s) (ctl : Ctl s) (held : 0 < s.locked) (f : Fn)
    (ordinary : check.isRunInOrder = false) (fits : Fits s check f) (atFront : s.requests.head? = some check) :
    wp (Queue.done h check f) (Yields (Drained [] [check] s) s) s := by
  simp only [Queue.done, wp_bind, wp_modify, wp_get, next_done, wp_assert]
  refine ⟨fun _ => ?_, fun other => (other atFront).elim⟩
  simp only [next_done, Queue.complete, wp_bind, wp_get]
  split
  · exact ⟨fun _ => .inl (park_effect atFront ordinary f true), .done ()⟩
  split
  · rename_i async
    let removed : State := ((s.log (.done check s.requests)).retire check).log (.finish check f s.finalizedRequests)
    have step : Step Own s removed.lock := .finish s check f atFront fits async
    have entered := Queue.Entered.finish wf ctl f atFront
    have wf' := step.wf sound.own wf
    have busy : Busy removed.lock := .inl (Nat.succ_pos _)
    simp only [scopeGuard, wp_bind, wp_modify, next_done]
    refine wp_mono (wp_and (Queue.wp_attempt_quiet (sound.call removed.lock f wf' entered.ctl))
      (wp_attempt_yields (sound.callRel removed.lock f wf' entered.ctl busy))) ?_
    rintro (kept | why) t ⟨quiet, yields⟩
    · have drained : Drained [] [check] s t.unlock :=
        (finish_effect atFront ordinary f).drained (yields.back trivial).drained.unlock
      have locked : t.unlock.locked = s.locked := (entered.leave ctl (quiet.post.back trivial)).2.1
      rw [next_done, wp_bind]
      refine release_held (locked ▸ held) ?_
      rw [next_done, wp_when]
      exact ⟨fun _ => ⟨fun _ => drained, fun failed => by cases failed⟩, fun _ => ⟨fun _ => drained, .done ()⟩⟩
    · exact ⟨fun returned => (quiet.kept (congrArg Outcome.halt returned)).elim, .after (.one step) yields.firm.halt⟩
  · exact ⟨fun _ => .inl (park_effect atFront ordinary f false), .done ()⟩

/-! ### The member `cancel` -/

/-- The request did not leave: nothing cancels a run-in-order request, and an exception of `on_establish`
skips the rest of a connect's `handle_event`. -/
def Stays (req : Req) (s t : State) : Prop :=
  t.requests.head? = some req ∧ (req.isRunInOrder = true ∨ lefts s.trace < lefts t.trace)

/-- The effect of `cancel` on the front request while the queue is being canceled. -/
def Leaves (req : Req) (s t : State) : Prop := Drained [] [req] s t ∨ Stays req s t

/-- While the queue is being canceled, the completion of a connect is a call of `done`. -/
theorem finalizeHandleConnect_canceling (connect : req.isConnect = true) (err : Option Err)
    (canceling : s.cancelTill ≠ none) (goal : ∀ m f, Handled s m → Fits m req f → wp (Queue.done h req f) Q m) :
    wp (finalizeHandleConnect h err req) Q s := by
  simp only [finalizeHandleConnect]
  refine wp_local (.setConnectResult _) fun startErr m handled => ?_
  rw [wp_update, wp_get_bind]
  split
  · refine goal _ _ (handled.trans (Local.stopConnectTimer req m).2) ?_
    cases req with
    | connect id timeout => exact ⟨⟨_, rfl⟩, by simp⟩
    | _ => cases connect
  · rename_i idle
    have marked : m.cancelTill ≠ none := by
      rw [handled.appends.till_eq]
      exact canceling
    exact (idle (.inr marked)).elim

private theorem shutdownEvent_done {id timeout : ℕ} (err : Option Err)
    (goal : ∀ m f, Handled s m → Fits m (.shutdown id timeout) f → wp (Queue.done h (.shutdown id timeout) f) Q m) :
    wp (handleEvent h (.shutdown id timeout) err) Q s := by
  simp only [handleEvent]
  refine wp_local (.setShutdown _) fun _ m handled => ?_
  rw [wp_update]
  exact goal _ _ (handled.trans (Local.stopShutdownTimer _ m).2) ⟨⟨err, rfl⟩, by simp⟩

/-- The other requests cancel themselves by a call of `done`, except run-in-order requests. -/
theorem cancel_done (other : req.isConnect = false) (ordinary : req.isRunInOrder = false) (err : Err)
    (goal : ∀ m f, Handled s m → Fits m req f → wp (Queue.done h req f) Q m) : wp (cancel h req err) Q s := by
  cases req with
  | connect => cases other
  | runInOrder => cases ordinary
  | write id bufs => exact wp_local (.when (.setFlags _)) fun _ m handled => goal m _ handled ⟨some err, rfl⟩
  | shutdown id timeout =>
    simp only [cancel]
    rw [wp_get_bind]
    split
    · refine wp_local (.setTimedOut _ _) fun _ m handled => ?_
      exact shutdownEvent_done _ fun t f handled' fits => goal t f (handled.trans handled') fits
    · exact shutdownEvent_done _ goal
  | disconnect id => exact goal s _ .refl (.inr rfl)
  | accept id => exact goal s _ .refl rfl

/-- A request whose `cancel` is a call of `done` leaves the front. -/
theorem done_after (sound : Sound h) (wf : Wf s) (ctl : Ctl s) (held : 0 < s.locked) {f : Fn}
    (ordinary : req.isRunInOrder = false) (atFront : s.requests.head? = some req) (handled : Handled s m)
    (fits : Fits m req f) : wp (Queue.done h req f) (Yields (Drained [] [req] s) s) m := by
  have reached := handled.post ctl ()
  have appends := handled.appends
  have yields := done_yields sound (reached.wf sound.own wf) reached.ctl (appends.locked ▸ held) f ordinary fits
    (appends.front atFront)
  exact Yields.after reached.path yields appends.drained

/-- The note that a completion has begun is settled by `done`. -/
theorem Drained.connectEvent (drained : Drained [] [req] (s.log (.own (.connectEvent req))) t) :
    Drained [] [req] s t := by
  refine drained.imp (fun effect => ?_) fun canceled => ⟨canceled.1, by simpa using canceled.2⟩
  refine { effect with opens := ?_, resets := ?_ }
  · rw [effect.opens]
    simp [openConnects]
  · rw [effect.resets]
    simp

private theorem connectEvent_leaves (sound : Sound h) {id timeout : ℕ} (err : Option Err) (wf : Wf s) (ctl : Ctl s)
    (held : 0 < s.locked) (canceling : s.cancelTill ≠ none) (atFront : s.requests.head? = some (.connect id timeout)) :
    wp (handleEvent h (.connect id timeout) err) (Yields (Leaves (.connect id timeout) s) s) s := by
  have noted := note_post ctl (.connectEvent s (.connect id timeout) rfl atFront)
  simp only [handleEvent, note]
  rw [wp_modify_bind]
  refine wp_local (.when (.setFlags _)) fun _ m handled => ?_
  have reached := noted.trans (handled.post noted.ctl ())
  have wf' := reached.wf sound.own wf
  have appends := handled.appends
  have held' : 0 < m.locked := by rw [appends.locked]; exact held
  have atFront' :=
    appends.front (show (s.log (.own (.connectEvent (.connect id timeout)))).requests.head? = _ from atFront)
  have begun : Completing (.connect id timeout) m :=
    .inl ⟨atFront', by rw [appends.opens_eq]; exact connectEvent_opens s _⟩
  rw [wp_bind]
  refine wp_mono (wp_and (onEstablish_post sound (.connect id timeout) m wf' reached.ctl)
    (onEstablish_rel sound (.connect id timeout) wf' reached.ctl (.inl held'))) ?_
  rintro (_ | why) t ⟨post, rel⟩
  · have wf'' := post.wf sound.own wf'
    have last := finalizeHandleConnect_post sound rfl err wf'' post.ctl (begun.after post.path (rel.1 rfl))
    have path := (reached.trans post).path
    rw [next_done]
    rcases rel.1 rfl with effect | ⟨canceled, _⟩
    · have marked : t.cancelTill ≠ none := by
        rw [Appends.till_eq effect, appends.till_eq]
        exact canceling
      have yields := finalizeHandleConnect_canceling (h := h) rfl err marked fun u f handled fits =>
        done_after sound wf'' post.ctl (effect.locked ▸ held') rfl (effect.front atFront') handled fits
      exact .after path yields fun drained => .inl (.connectEvent (appends.drained (effect.drained drained)))
    · have later := canceled.later last.path
      exact ⟨fun _ => .inl (.connectEvent (appends.drained (.inr later))), .after reached.path fun _ => later.2⟩
  · refine ⟨fun returned => ?_, .after reached.path rel.2.2.halt⟩
    obtain ⟨u, path, user, rfl⟩ := rel.2.1 (congrArg _ returned)
    rcases user with effect | ⟨canceled, _⟩
    · refine .inr ⟨effect.front atFront', .inr ?_⟩
      rw [World.log_trace, lefts_left]
      exact Nat.lt_succ_of_le (lefts_mono ((path_older reached.path).trans (path_older path)))
    · have after : Canceled m (u.log (.own (.connectLeft (.connect id timeout)))) :=
        ⟨canceled.1, by simpa using canceled.2⟩
      exact .inl <| .connectEvent (appends.drained (.inr after))

private theorem cancel_leaves (sound : Sound h) (req : Req) (err : Err) (wf : Wf s) (ctl : Ctl s) (held : 0 < s.locked)
    (canceling : s.cancelTill ≠ none) (atFront : s.requests.head? = some req) :
    wp (cancel h req err) (Yields (Leaves req s) s) s := by
  cases req with
  | connect id timeout => exact connectEvent_leaves sound (some err) wf ctl held canceling atFront
  | runInOrder id => exact ⟨fun _ => .inr ⟨atFront, .inl rfl⟩, .done ()⟩
  | _ =>
    refine cancel_done rfl rfl err fun m f handled fits => ?_
    have yields := done_after sound wf ctl held rfl atFront handled fits
    exact ⟨fun returned => .inl (yields.back returned), yields.firm⟩

/-- The members of a request that is canceled leave the front. -/
structure Sharp (h : Members) : Prop extends Sound h where
  cancelLeaves : ∀ s req err, Wf s → Ctl s → 0 < s.locked → s.cancelTill ≠ none → s.requests.head? = some req →
    wp (h.cancel req err) (Yields (Leaves req s) s) s

theorem members_sharp (n : ℕ) : Sharp (members n) := by
  refine ⟨members_sound n, ?_⟩
  cases n with
  | zero => exact fun _ _ _ _ _ _ _ _ => ⟨fun returned => (by cases returned), fun failed => by cases failed⟩
  | succ n =>
    exact fun s req err wf ctl held canceling atFront =>
      cancel_leaves (members_sound n) req err wf ctl held canceling atFront

/-! ### The loops of `cancel` -/

/-- After a part of the segment has been canceled, the mark still is the end of the segment. -/
private theorem getLast_filter {before seg : List Req} (unique : (before ++ seg).Nodup) :
    ((before ++ seg).getLast?.filter fun req => decide (req ∉ before)) = seg.getLast? := by
  rw [List.nodup_append] at unique
  cases last : seg.getLast? with
  | none =>
    rw [List.getLast?_eq_none_iff] at last
    subst last
    cases mark : before.getLast? with
    | none => simp [mark]
    | some req => simp [mark, List.mem_of_getLast? mark]
  | some req =>
    have absent : req ∉ before := fun member => unique.2.2 req member req (List.mem_of_getLast? last) rfl
    simp [List.getLast?_append, last, absent]

/-- What is left of the segment to cancel, and of its mark, after a part of it has left. -/
theorem Effect.remains {notified before seg rest : List Req} (effect : Effect notified before s t) (wf : Wf s)
    (requests : s.requests = before ++ seg ++ rest) (mark : s.cancelTill = (before ++ seg).getLast?) :
    ∃ new, t.requests = seg ++ (rest ++ new) ∧ t.cancelTill = seg.getLast? := by
  obtain ⟨new, waiting, _⟩ := effect.behind (requests.trans (List.append_assoc ..))
  have unique := (List.nodup_append.mp wf.nodup).2.1
  rw [requests, List.nodup_append] at unique
  refine ⟨new, waiting.trans (List.append_assoc ..), ?_⟩
  rw [effect.till, mark]
  exact getLast_filter unique.1

/-- The request object was pushed again. -/
def Repushed (req : Req) (s t : State) : Prop := (pushes s.trace).count req < (pushes t.trace).count req

/-- Why the assertion behind the member `cancel` can fail: the segment holds a run-in-order request or one
that a callback pushed again, an exception left `on_establish`, or a callback canceled. -/
def Reasons (seg : List Req) (s : State) (o : Outcome α) (t : State) : Prop :=
  o = .halt .aborted → (∃ req ∈ seg, req.isRunInOrder = true ∨ Repushed req s t) ∨
    lefts s.trace < lefts t.trace ∨ resets s.trace < resets t.trace

theorem Firm.reasons (firm : Firm s o t) (seg : List Req) : Reasons seg s o t :=
  fun failed => .inr (.inr (firm failed))

theorem Reasons.halt {seg : List Req} {why : Halt} (reasons : Reasons seg s (.halt why : Outcome α) t) :
    Reasons seg s (.halt why : Outcome β) t := fun failed => reasons (by cases failed; rfl)

theorem wp_map_reasons {c : Exec State β} {f : β → α} {seg : List Req} (first : wp c (Reasons seg s) m) :
    wp (c >>= fun value => pure (f value)) (Reasons seg s) m := by
  rw [wp_bind]
  refine wp_mono first ?_
  rintro (value | why) t reasons
  · exact fun failed => by cases failed
  · exact reasons.halt

theorem pushes_mono (path : Path Own s t) (req : Req) : (pushes s.trace).count req ≤ (pushes t.trace).count req :=
  ((path_older path).sublist.filterMap _).count_le req

theorem Reasons.after {seg seg' : List Req} (path : Path Own s m) (reasons : Reasons seg m o t) (within : seg ⊆ seg') :
    Reasons seg' s o t := by
  intro failed
  refine (reasons failed).imp ?_ (Or.imp ?_ ?_)
  · rintro ⟨req, member, reason⟩
    exact ⟨req, within member, reason.imp_right (lt_of_le_of_lt (pushes_mono path req))⟩
  · exact lt_of_le_of_lt (lefts_mono (path_older path))
  · exact lt_of_le_of_lt (resets_mono (path_older path))

/-- A request that left the front is there again only if it was pushed again. -/
theorem Effect.repushed {cur : Req} {later : List Req} (effect : Effect [] [cur] s t)
    (requests : s.requests = cur :: later) (absent : cur ∉ later) (back : t.requests.head? = some cur) :
    Repushed cur s t := by
  obtain ⟨new, waiting, pushed⟩ := effect.behind (show s.requests = [cur] ++ later from requests)
  have first : new.head? = some cur := by
    cases later with
    | nil => rwa [waiting] at back
    | cons next rest =>
      rw [waiting] at back
      exact (absent (by simp [Option.some.inj back])).elim
  have member : 0 < new.count cur := List.count_pos_iff.mpr (List.mem_of_mem_head? first)
  rw [Repushed, pushed, List.count_append, List.count_reverse]
  omega

/-- What a part of a cancel does to the requests it should complete, and why it may fail. -/
structure Sweeps (notified completed : List Req) (s : State) (o : Outcome α) (t : State) : Prop where
  back : o.Returned → Drained notified completed s t
  reasons : Reasons completed s o t

theorem Canceled.sweeps (canceled : Canceled s m) (path : Path Own m t) : Sweeps notified completed s o t :=
  ⟨fun _ => .inr (canceled.later path), (Firm.of_reset canceled.2 path).reasons completed⟩

theorem Effect.sweeps {notified notified' completed completed' : List Req} (effect : Effect notified completed s m)
    (path : Path Own s m) (sweeps : Sweeps notified' completed' m o t) :
    Sweeps (notified ++ notified') (completed ++ completed') s o t :=
  ⟨fun returned => effect.drained (sweeps.back returned),
    sweeps.reasons.after path (List.subset_append_right ..)⟩

theorem wp_map_sweeps {c : Exec State β} {f : β → α} (first : wp c (Sweeps notified completed s) m) :
    wp (c >>= fun value => pure (f value)) (Sweeps notified completed s) m :=
  ⟨wp_map_back first.back, wp_map_reasons first.reasons⟩

private theorem cancelRequests_sweeps (sharp : Sharp h) (budget : ℕ) : ∀ s seg rest, Wf s → Ctl s → 0 < s.locked →
    s.requests = seg ++ rest → seg ≠ [] → s.cancelTill = seg.getLast? →
    wp (Queue.cancelRequests h budget) (Sweeps [] seg s) s := by
  induction budget with
  | zero => exact fun _ _ _ _ _ _ _ _ _ => ⟨fun returned => (by cases returned), fun failed => by cases failed⟩
  | succ budget ih =>
    intro s seg rest wf ctl held requests some mark
    obtain ⟨cur, later, rfl⟩ := List.exists_cons_of_ne_nil some
    have atFront : s.requests.head? = .some cur := by rw [requests]; rfl
    have marked : s.cancelTill ≠ none := by rw [mark]; simp
    have split : s.requests = [cur] ++ later ++ rest := requests
    have absent : cur ∉ later ++ rest := by
      have gone := (wf.not_mem_tail atFront).1
      rwa [requests] at gone
    have logged : Post Own s (.done () : Outcome Unit) (s.log (.cancel cur)) :=
      ⟨.one (.cancel s cur atFront), fun _ => .log ctl trivial⟩
    have appends : Appends s (s.log (.cancel cur)) :=
      .of (n := []) (List.append_nil _).symm rfl rfl rfl rfl rfl rfl (by simp) rfl rfl rfl
    have wf₁ := logged.wf sharp.own wf
    simp only [Queue.cancelRequests]
    rw [wp_get_bind, requests]
    change wp (modify _ >>= _) _ s
    rw [wp_modify_bind, wp_bind]
    refine wp_mono (wp_and (Queue.wp_attempt_quiet (sharp.cancel _ cur .canceled wf₁ logged.ctl atFront))
      (wp_attempt_yields (sharp.cancelLeaves _ cur .canceled wf₁ logged.ctl held marked atFront))) ?_
    rintro (kept | why) t ⟨quiet, leaves⟩
    · have wf₂ := quiet.post.wf sharp.own wf₁
      have held₂ : 0 < t.locked := by rw [(quiet.post.back trivial).locked]; exact held
      have reached := logged.path.then le_rfl quiet.post.path
      have restPost := Queue.cancelRequests_post sharp.toOk budget t wf₂ quiet.post.ctl held₂
      rw [next_done, wp_get_bind, wp_bind, wp_assert]
      rcases leaves.back trivial with (effect | canceled) | stays
      · have effect' : Effect [] [cur] s t := Effect.trans appends effect
        obtain ⟨new, requests', mark'⟩ := effect'.remains wf split mark
        refine ⟨fun gone => ?_, fun back => ⟨fun returned => (by cases returned), fun _ => .inl ?_⟩⟩
        · rw [next_done]
          split
          · rename_i more
            have some' : later ≠ [] := fun none => more.1 (by rw [mark', none]; rfl)
            exact effect'.sweeps reached
              (wp_map_sweeps (ih t later _ wf₂ quiet.post.ctl held₂ requests' some' mark'))
          · rename_i last
            have none : later = [] := by
              by_contra some'
              refine last ⟨?_, fun same => ?_⟩
              · rw [mark']
                simpa using some'
              · exact absent (List.mem_append_left _ (List.mem_of_getLast? (mark'.symm.trans same)))
            rw [none]
            exact ⟨fun _ => .inl effect', fun failed => by cases failed⟩
        · exact ⟨cur, List.mem_cons_self .., .inr (effect'.repushed requests absent (not_not.mp back))⟩
      · have canceled' : Canceled s t := canceled.after appends
        refine ⟨fun gone => ?_, fun _ => canceled'.sweeps .refl⟩
        rw [next_done]
        split
        · exact wp_map_sweeps (canceled'.sweeps restPost.post.path)
        · exact canceled'.sweeps .refl
      · refine ⟨fun gone => (gone stays.1).elim, fun _ => ⟨fun returned => (by cases returned), fun _ => ?_⟩⟩
        exact stays.2.elim (fun kind => .inl ⟨cur, List.mem_cons_self .., .inl kind⟩) fun left => .inr (.inl left)
    · exact ⟨fun returned => (quiet.kept (congrArg Outcome.halt returned)).elim,
        (leaves.firm.halt.after logged.path).reasons _⟩

/-- `if (requests.size() && cancel_till) ..` cancels exactly the segment up to the mark. -/
theorem cancelWaiting_sweeps (sharp : Sharp h) {seg rest : List Req} (wf : Wf s) (ctl : Ctl s) (held : 0 < s.locked)
    (requests : s.requests = seg ++ rest) (mark : s.cancelTill = seg.getLast?) :
    wp (Queue.cancelWaiting h) (Sweeps [] seg s) s := by
  simp only [Queue.cancelWaiting]
  rw [wp_get_bind]
  split
  · rename_i waiting
    have some : seg ≠ [] := fun none => waiting.2 (by rw [mark, none]; rfl)
    exact cancelRequests_sweeps sharp h.budget s seg rest wf ctl held requests some mark
  · rename_i nothing
    have none : seg = [] := by
      by_contra some
      refine nothing ⟨?_, ?_⟩
      · rw [requests]
        exact List.append_ne_nil_of_left_ne_nil some _
      · rw [mark]
        simpa using some
    rw [none]
    exact ⟨fun _ => .inl .refl, fun failed => by cases failed⟩

/-- Notifying parked requests does not change the segment to cancel. -/
theorem Effect.segment {notified seg rest : List Req} (effect : Effect notified [] s t)
    (requests : s.requests = seg ++ rest) (mark : s.cancelTill = seg.getLast?) :
    (∃ new, t.requests = seg ++ (rest ++ new)) ∧ t.cancelTill = seg.getLast? := by
  obtain ⟨new, shape, _⟩ := effect.requests
  refine ⟨⟨new, ?_⟩, ?_⟩
  · rw [List.nil_append] at shape
    rw [shape, requests, List.append_assoc]
  · rw [effect.till, mark]
    cases seg.getLast? <;> rfl

/-- `cancel` from its pre step, which completes the requests `before`, up to its post step. -/
theorem pendingRest_sweeps (sharp : Sharp h) {fpre : Exec State Unit} {before seg rest : List Req} (flushed : Bool)
    (wf : Wf s) (held : 0 < s.locked) (requests : s.requests = before ++ seg ++ rest)
    (mark : s.cancelTill = (before ++ seg).getLast?) (pre : wp fpre (Post Own s) s)
    (preYields : wp fpre (Yields (Drained [] before s) s) s) :
    wp (do let pre ← attempt fpre; let canceled ← Queue.cancelWaiting h; pure (flushed || pre || canceled))
      (Sweeps [] (before ++ seg) s) s := by
  rw [wp_bind]
  refine wp_mono (wp_and (Queue.wp_attempt_quiet pre) (wp_attempt_yields preYields)) ?_
  rintro (kept | why) m ⟨quiet, yields⟩
  · have wf' := quiet.post.wf sharp.own wf
    have held' : 0 < m.locked := by rw [(quiet.post.back trivial).locked]; exact held
    rw [next_done]
    rcases yields.back trivial with effect | canceled
    · obtain ⟨new, requests', mark'⟩ := effect.remains wf requests mark
      exact effect.sweeps quiet.post.path
        (wp_map_sweeps (cancelWaiting_sweeps sharp wf' quiet.post.ctl held' requests' mark'))
    · exact wp_map_sweeps
        (canceled.sweeps (Queue.cancelWaiting_post sharp.toOk wf' quiet.post.ctl held').post.path)
  · exact ⟨fun returned => (quiet.kept (congrArg Outcome.halt returned)).elim, yields.firm.halt.reasons _⟩

/-- `cancel` up to its post step: the parked requests are notified, then the segment is canceled. -/
theorem cancelPending_sweeps (sharp : Sharp h) {fpre : Exec State Unit} {before seg rest : List Req} (wf : Wf s)
    (ctl : Ctl s) (held : 0 < s.locked) (requests : s.requests = before ++ seg ++ rest)
    (mark : s.cancelTill = (before ++ seg).getLast?)
    (pre : ∀ m, Wf m → Ctl m → Path Own s m → Rel s.finalizedRequests s m → wp fpre (Post Own m) m)
    (preYields : ∀ m, Wf m → Ctl m → 0 < m.locked → Path Own s m → Effect s.finalizedRequests [] s m →
      wp fpre (Yields (Drained [] before m) m) m) :
    wp (Queue.cancelPending h fpre) (Sweeps s.finalizedRequests (before ++ seg) s) s := by
  simp only [Queue.cancelPending]
  rw [wp_bind]
  refine wp_mono (wp_and (Queue.flushFinalized_post sharp.toOk h.budget s wf ctl)
    (flushFinalized_rel sharp.toSound h.budget s wf ctl held)) ?_
  rintro (flushed | why) m ⟨quiet, rel⟩
  · have wf' := quiet.post.wf sharp.own wf
    have held' : 0 < m.locked := by rw [(quiet.post.back trivial).locked]; exact held
    have pre' := pre m wf' quiet.post.ctl quiet.post.path (rel.back trivial)
    rw [next_done]
    rcases rel.back trivial with effect | ⟨canceled, _⟩
    · obtain ⟨⟨new, requests'⟩, mark'⟩ := effect.segment requests mark
      rw [← List.append_nil s.finalizedRequests, ← List.nil_append (before ++ seg)]
      exact effect.sweeps quiet.post.path (pendingRest_sweeps sharp flushed wf' held' requests' mark' pre'
        (preYields m wf' quiet.post.ctl held' quiet.post.path effect))
    · exact canceled.sweeps (Queue.pendingRest_post sharp.toOk flushed wf' held' pre').post.path
  · exact ⟨fun returned => (quiet.kept (congrArg Outcome.halt returned)).elim, rel.firm.halt.reasons _⟩

/-- The same without a pre step. -/
theorem cancelPending_sweeps_pure (sharp : Sharp h) {seg rest : List Req} (wf : Wf s) (ctl : Ctl s)
    (held : 0 < s.locked) (requests : s.requests = seg ++ rest) (mark : s.cancelTill = seg.getLast?) :
    wp (Queue.cancelPending h (pure ())) (Sweeps s.finalizedRequests seg s) s := by
  have before : s.requests = [] ++ seg ++ rest := requests
  exact cancelPending_sweeps sharp wf ctl held before mark (fun _ _ ctl _ _ => Post.refl ctl)
    fun _ _ _ _ _ _ => ⟨fun _ => .inl .refl, .done ()⟩

/-- The effect of a cancel as a whole, which counts a generation, unless a callback canceled. -/
def Swept (notified completed : List Req) (s t : State) : Prop :=
  (∃ gen, Effect notified completed s { t with cancelGen := gen }) ∨ resets s.trace < resets t.trace

/-- The post step runs in the generation that `cancel` was entered with, and counts a new one. -/
theorem postCancel_yields {fpost : Exec State Unit} {extra : List Req} {gen : ℕ} (same : gen = s.cancelGen)
    (post : wp fpost (Yields (Drained [] extra s) s) s) :
    wp (Queue.postCancel fpost gen) (Yields (fun t => ∃ gen, Drained [] extra s { t with cancelGen := gen }) s) s := by
  simp only [Queue.postCancel]
  rw [wp_get_bind, if_pos same]
  refine wp_attempt_yields ?_
  rw [wp_bind]
  refine wp_mono post ?_
  rintro (_ | why) t yields
  · exact ⟨fun _ => ⟨t.cancelGen, yields.back trivial⟩, .done ()⟩
  · exact ⟨fun returned => ⟨t.cancelGen, yields.back returned⟩, yields.firm⟩

/-- All of `cancel` that runs under its lock, when its post step completes the requests `extra`. -/
theorem cancelLocked_sweeps {fpre fpost : Exec State Unit} {notified completed extra : List Req}
    (cleared : wp (Queue.cancelPending h fpre) (Queue.Cleared Own s) s)
    (pending : wp (Queue.cancelPending h fpre) (Sweeps notified completed s) s)
    (post : ∀ value m, Post Own s (.done value : Outcome Bool) m → Effect notified completed s m →
      wp fpost (Yields (Drained [] extra m) m) m) :
    wp (Queue.cancelLocked h fpre fpost s.cancelGen)
      (fun o t => (o.Returned → Swept notified (completed ++ extra) s t) ∧ Reasons completed s o t) s := by
  simp only [Queue.cancelLocked]
  rw [wp_bind]
  refine wp_mono (wp_and cleared pending) ?_
  rintro (kept | why) m ⟨cleared, pending⟩
  · rw [next_done]
    rcases pending.back trivial with effect | canceled
    · have last := postCancel_yields effect.gen.symm (post kept m cleared.post effect)
      refine wp_and (wp_map_back (Q := Swept notified (completed ++ extra) s) fun returned => ?_) ?_
      · obtain ⟨gen, drained⟩ := last.back returned
        rcases effect.drained drained with whole | canceled
        · exact .inl ⟨gen, by simpa using whole⟩
        · exact .inr canceled.2
      · exact Reasons.after cleared.post.path (wp_map_reasons (last.firm.reasons completed)) (List.Subset.refl _)
    · have skipped : wp (Queue.postCancel fpost s.cancelGen) (Queue.Quiet Own m) m :=
        Queue.postCancel_post cleared.post.ctl fun same => absurd same (Nat.ne_of_gt canceled.1)
      refine wp_and (wp_map_back (Q := Swept notified (completed ++ extra) s) fun _ => ?_) (wp_map_reasons ?_)
      · exact .inr (canceled.later skipped.post.path).2
      · exact (Firm.of_reset canceled.2 skipped.post.path).reasons completed
  · exact ⟨fun returned => (cleared.kept (congrArg Outcome.halt returned)).elim, pending.reasons.halt⟩

end UniEvent.Stream
