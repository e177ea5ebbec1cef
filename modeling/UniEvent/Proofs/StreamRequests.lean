import UniEvent.Proofs.StreamCalls

/-! # The members of the stream's requests

`exec`, `cancel`, `handle_event` and `notify` of each class, and the closures they hand to `done`. What
they do under the lock of a `cancel` is told exactly: the request leaves the front, unless it is a
run-in-order request or an exception of `on_establish` left its `handle_event`.
-/

namespace UniEvent.Stream

open Program Program.Exec

variable {s m t : State} {h : Members} {req : Req}

private theorem call_post (sound : Sound h) (f : Fn) : Queue.Spec Own (call h f) := by
  cases f with
  | notifyOn req err => exact user_post sound
  | reset => exact resetHandle_spec
  | code req => exact user_post sound
  | nothing => exact fun _ _ ctl => Post.refl ctl

private theorem call_rel (sound : Sound h) (f : Fn) (wf : Wf s) (ctl : Ctl s) (busy : Busy s) :
    wp (call h f) (Yields (Rel [] s) s) s := by
  cases f with
  | notifyOn req err => exact user_rel sound wf ctl busy
  | reset => exact .done () (.inl (zero_appends _ _))
  | code req => exact user_rel sound wf ctl busy
  | nothing => exact .done () (.inl .refl)

private theorem notify_post (sound : Sound h) (req : Req) (err : Err) : Queue.Spec Own (notify h req err) := by
  cases req with
  | connect | write | shutdown => exact user_post sound
  | _ => exact fun _ _ ctl => Post.refl ctl

private theorem notify_rel (sound : Sound h) (req : Req) (err : Err) (wf : Wf s) (ctl : Ctl s) (busy : Busy s) :
    wp (notify h req err) (Yields (Rel [] s) s) s := by
  cases req with
  | connect | write | shutdown => exact user_rel sound wf ctl busy
  | _ => exact .done () (.inl .refl)

/-! ### The completion of a connect -/

private theorem flush_effect {cur : Req} {rest : List Req} (parked : s.finalizedRequests = cur :: rest) (err : Err) :
    Effect [cur] [] s (s.flush cur err) where
  requests := ⟨[], (List.append_nil _).symm, rfl⟩
  finalized := ⟨[], by simp [World.flush, World.log, World.delayCancel, parked], .refl _⟩
  dones := rfl
  notifies := rfl
  opens := by simp [openConnects]
  till := by change s.cancelTill = _; cases s.cancelTill <;> rfl
  ordinary := by simp
  resets := by simp
  lefts := rfl
  locked := rfl
  gen := rfl

/-- `cancel` hands every parked request to `notify`. -/
theorem flushFinalized_rel (sound : Sound h) (budget : ℕ) : ∀ s, Wf s → Ctl s → 0 < s.locked →
    wp (Queue.flushFinalized h budget) (Yields (Rel s.finalizedRequests s) s) s := by
  induction budget with
  | zero => exact fun s _ _ _ => .lost nofun nofun
  | succ budget ih =>
    intro s wf ctl held
    simp only [Queue.flushFinalized]
    rw [wp_get_bind]
    split
    · rename_i empty
      rw [empty]
      exact .done false (.inl .refl)
    · rename_i cur rest parked
      have flushed : Post Own s (.done () : Outcome Unit) (s.flush cur .canceled) :=
        ⟨.one (.flush s cur _ (by rw [parked, List.head?_cons])), fun _ => .frame ctl rfl rfl rfl fun _ => Iff.rfl⟩
      have wf₁ := flushed.wf sound.own wf
      rw [wp_modify_bind, wp_bind]
      refine wp_mono (wp_and (Queue.wp_attempt_quiet (sound.notify _ cur .canceled wf₁ flushed.ctl))
        (wp_attempt_yields (sound.notifyRel _ cur .canceled wf₁ flushed.ctl (.inl held)))) ?_
      rintro (kept | why) m ⟨quiet, rel⟩
      · have wf₂ := quiet.post.wf sound.own wf₁
        have held₂ : 0 < m.locked := by rw [(quiet.post.back trivial).locked]; exact held
        have reached : Rel [cur] s m :=
          Rel.trans (.inl (flush_effect parked _)) quiet.post.path fun _ => rel.back trivial
        rw [next_done, wp_bind]
        refine wp_mono (wp_and (Queue.flushFinalized_post sound.toOk budget m wf₂ quiet.post.ctl)
          (ih m wf₂ quiet.post.ctl held₂)) ?_
        rintro (later | why) t ⟨last, lastRel⟩
        · rw [parked]
          refine .done _ (Rel.trans reached last.post.path fun effect => ?_)
          have restEq : m.finalizedRequests = rest := by
            obtain ⟨parked', finalized, none⟩ := effect.finalized
            simpa [List.sublist_nil.mp none, parked] using finalized
          exact restEq ▸ lastRel.back trivial
        · exact ⟨fun returned => (last.kept (congrArg Outcome.halt returned)).elim,
            .after (flushed.path.then le_rfl quiet.post.path) lastRel.firm.halt⟩
      · exact ⟨fun returned => (quiet.kept (congrArg Outcome.halt returned)).elim, .after flushed.path rel.firm.halt⟩

/-- A timer that is off stays off under a lock: no request is executed. -/
theorem connectTimer_off (held : 0 < s.locked) (path : Path Own s t) (off : s.owner.connectTimer req = false) :
    t.owner.connectTimer req = false := by
  refine path.invariant_locked (I := fun m => m.owner.connectTimer req = false) held ?_ off
  intro m t step held off
  cases step with
  | own moved =>
    cases moved with
    | enqueue _ owner _ _ timer _ => exact (congrFun timer req).trans off
    | handle owner _ timer _ => exact Bool.eq_false_iff.mpr fun on => absurd (timer req on) (by simp [off])
    | arm _ _ _ free _ => exact absurd free (Nat.ne_of_gt held)
    | _ =>
      exact off
  | _ => exact off

/-- A connect may go on to `done`: it is at the front, or it has been interrupted. -/
def Completing (req : Req) (s : State) : Prop :=
  (s.requests.head? = some req ∧ openConnects s.trace ≠ []) ∨ ¬ ResetsClear s.trace

theorem Completing.after {notified : List Req} (ready : Completing req s) (path : Path Own s t)
    (rel : Rel notified s t) : Completing req t := by
  rcases ready with ⟨atFront, opened⟩ | lost
  · rcases rel with effect | ⟨_, disturbed⟩
    · refine .inl ⟨effect.front atFront, ?_⟩
      rw [effect.opens]
      simpa using opened
    · exact .inr (disturbed opened)
  · exact .inr fun clear => lost (clear.earlier (path_older path))

section

variable (sound : Sound h) (connect : req.isConnect = true) (err : Option Err) (wf : Wf s) (ctl : Ctl s)
  (ready : Completing req s)

include sound connect err wf ctl ready

theorem done_connect_post (off : s.owner.connectTimer req = false) :
    wp (Queue.done h req (.notifyOn req err)) (Post Own s) s := by
  refine Queue.done_post sound.toOk wf ctl (fun _ => ?_) (ready.imp And.left id)
  cases req with
  | connect id timeout => exact ⟨⟨err, rfl⟩, off⟩
  | _ => cases connect

theorem finalizeHandleConnect_post : wp (finalizeHandleConnect h err req) (Post Own s) s := by
  simp only [finalizeHandleConnect]
  refine wp_local (.setConnectResult _) fun startErr m handled => ?_
  let stopped : State :=
    { m with owner := { m.owner with connectTimer := Function.update m.owner.connectTimer req false } }
  have handled' : Handled s stopped := handled.trans (Local.stopConnectTimer req m).2
  have reached := handled'.post ctl ()
  have wf' := reached.wf sound.own wf
  have ready' : Completing req stopped := ready.after reached.path (.inl handled'.appends)
  have off : stopped.owner.connectTimer req = false := by simp [stopped]
  rw [wp_update, wp_get_bind]
  refine wp_mono (Q := Post Own stopped) ?_ fun _ _ post => reached.trans post
  split
  · exact done_connect_post sound connect _ wf' reached.ctl ready' off
  · refine Queue.cancel_post sound.toOk (fun _ none => by cases none) wf' ?_
      (fun _ wf ctl _ => resetHandle_spec _ wf ctl)
    have wf₁ := Queue.beginCancel_wf wf' none
    have ctl₁ : Ctl (stopped.beginCancel none) := Queue.beginCancel_ctl fun _ none => by cases none
    refine wp_mono (wp_and (Queue.flushFinalized_post sound.toOk h.budget _ wf₁ ctl₁)
      (flushFinalized_rel sound h.budget _ wf₁ ctl₁ (Nat.succ_pos _))) ?_
    rintro o u ⟨quiet, rel⟩ returned wf₂ ctl₂
    have begun : Completing req (stopped.beginCancel none) := ready'
    exact done_connect_post sound connect _ wf₂ ctl₂ (begun.after quiet.post.path (rel.back returned))
      (connectTimer_off (Nat.succ_pos _) quiet.post.path off)

/-! ### Events and execution -/

end

theorem connectEvent_opens (s : State) (req : Req) :
    openConnects (s.log (.own (.connectEvent req))).trace ≠ [] := List.cons_ne_nil _ _

theorem onEstablish_post (sound : Sound h) (req : Req) : Queue.Spec Own (onEstablish h req) := by
  intro s wf ctl
  simp only [onEstablish]
  refine wp_bind_post (wp_mono (Queue.wp_attempt_quiet (user_post sound s wf ctl)) fun _ _ => Queue.Quiet.post) ?_
  intro failed t post
  rw [wp_when]
  refine ⟨fun _ => ?_, fun _ => Post.refl post.ctl⟩
  have noted := note_post post.ctl (.connectLeft t req)
  exact wp_modify_post noted (Post.refl noted.ctl)

/-- `on_establish` has the effect of user code, and an exception is noted on its way out. -/
theorem onEstablish_rel (sound : Sound h) (req : Req) (wf : Wf s) (ctl : Ctl s) (busy : Busy s) :
    wp (onEstablish h req) (fun o t => (o = .done () → Rel [] s t) ∧
      (o = .halt .thrown → ∃ u, Path Own s u ∧ Rel [] s u ∧ t = u.log (.own (.connectLeft req))) ∧ Firm s o t) s := by
  simp only [onEstablish]
  rw [wp_bind]
  refine wp_mono (wp_and (Queue.wp_attempt_quiet (user_post sound s wf ctl))
    (wp_attempt_yields (user_rel sound wf ctl busy))) ?_
  rintro (failed | why) t ⟨quiet, rel⟩
  · rw [next_done, wp_when]
    constructor
    · refine fun _ => ⟨fun same => (by cases same), fun _ => ⟨t, quiet.post.path, rel.back trivial, rfl⟩, ?_⟩
      exact fun failed => by cases failed
    · exact fun _ => ⟨fun _ => rel.back trivial, fun same => (by cases same), .done ()⟩
  · exact ⟨fun same => (by cases same), fun same => (quiet.kept (congrArg _ (Outcome.halt.inj same))).elim,
      rel.firm.halt⟩

private theorem connectEvent_post (sound : Sound h) (connect : req.isConnect = true) (err : Option Err) (wf : Wf s)
    (ctl : Ctl s) (atFront : s.requests.head? = some req) : wp (do
      note (.connectEvent req)
      when (err = none) (setFlags fun f => { f with established := true })
      onEstablish h req
      finalizeHandleConnect h err req) (Post Own s) s := by
  have noted := note_post ctl (.connectEvent s req connect atFront)
  refine wp_modify_post noted (wp_local (.when (.setFlags _)) fun _ m handled => ?_)
  have reached := handled.post noted.ctl ()
  have wf' := reached.wf sound.own (noted.wf sound.own wf)
  have begun : Completing req (s.log (.own (.connectEvent req))) := .inl ⟨atFront, connectEvent_opens s req⟩
  have ready : Completing req m := begun.after reached.path (.inl handled.appends)
  have busy : Busy m := handled.appends.busy (.inr fun empty => by
    rw [show s.requests = [] from empty] at atFront
    cases atFront)
  refine wp_mono (Q := Post Own m) ?_ fun _ _ post => reached.trans post
  rw [wp_bind]
  refine wp_mono (wp_and (onEstablish_post sound req m wf' reached.ctl)
    (onEstablish_rel sound req wf' reached.ctl busy)) ?_
  rintro (_ | why) t ⟨post, rel⟩
  · have ready' := ready.after post.path (rel.1 rfl)
    exact wp_mono (finalizeHandleConnect_post sound connect err (post.wf sound.own wf') post.ctl ready')
      fun _ _ last => post.trans last
  · exact post

theorem handleEvent_post (sound : Sound h) (req : Req) (err : Option Err) (wf : Wf s) (ctl : Ctl s)
    (atFront : s.requests.head? = some req) : wp (handleEvent h req err) (Post Own s) s := by
  cases req with
  | connect id timeout => exact connectEvent_post sound rfl err wf ctl atFront
  | write id bufs =>
    refine wp_local (.when (.setFlags _)) fun _ m handled => ?_
    have reached := handled.post ctl ()
    refine wp_mono (Queue.done_post sound.toOk (reached.wf sound.own wf) reached.ctl (fun _ => ⟨err, rfl⟩)
      (.inl (handled.appends.front atFront))) fun _ _ post => reached.trans post
  | shutdown id timeout =>
    simp only [handleEvent]
    refine wp_local (.setShutdown _) fun _ m handled => ?_
    have handled' := handled.trans (Local.stopShutdownTimer (.shutdown id timeout) m).2
    have reached := handled'.post ctl ()
    rw [wp_update]
    refine wp_mono (Queue.done_post sound.toOk (reached.wf sound.own wf) reached.ctl (fun _ => ?_)
      (.inl (handled'.appends.front atFront))) fun _ _ post => reached.trans post
    exact ⟨⟨err, rfl⟩, by simp [Stream.update, Exec.modify]⟩
  | _ => exact Post.refl ctl

section Exec
variable (sound : Sound h) (wf : Wf s) (ctl : Ctl s) (atFront : s.requests.head? = some req)
  (started : s.Started req)
include ctl atFront started

theorem activate_post : wp (activate req) (Post Own s) s :=
  ⟨.one (.own (.activate s req atFront started)), fun _ => .frame ctl rfl rfl rfl fun _ => Iff.rfl⟩

/-- `delay([=]{ cancel(err); })` -/
theorem delay_post (err : Err) : wp (modify (World.delay (.cancel req err))) (Post Own s) s :=
  ⟨.one (.own (.delayCancel s req err atFront started)), fun _ => .frame ctl rfl rfl rfl fun _ => Iff.rfl⟩

include sound wf

/-- After a step that changes the owner alone, the request is where it was. -/
private theorem wp_local_post {β : Type} {c : Exec State β} {f : β → Exec State Unit} (first : Local c)
    (rest : ∀ value m, Wf m → Ctl m → m.requests.head? = some req → m.Started req → m.locked = s.locked →
      wp (f value) (Post Own m) m) : wp (c >>= f) (Post Own s) s := by
  refine wp_local first fun value m handled => ?_
  have reached := handled.post ctl ()
  have atFront' := handled.appends.front atFront
  obtain ⟨owner, rfl, _⟩ := handled
  exact wp_mono (rest value _ (reached.wf sound.own wf) reached.ctl atFront' started rfl) fun _ _ post =>
    reached.trans post

theorem submit_post : wp (submit h req) (Post Own s) s := by
  refine wp_local_post sound wf ctl atFront started .nextReply fun reply m wf ctl atFront started _ => ?_
  cases reply with
  | pending => exact activate_post ctl atFront started
  | failed err => exact delay_post ctl atFront started err
  | sync err => exact wp_ignoring_post (handleEvent_post sound req err wf ctl atFront)

private theorem submitShutdown_post : wp (submitShutdown h req) (Post Own s) s := by
  refine wp_local_post sound wf ctl atFront started .nextReply fun reply m wf ctl atFront started _ => ?_
  cases reply with
  | pending => exact activate_post ctl atFront started
  | failed | sync => exact wp_ignoring_post (handleEvent_post sound req _ wf ctl atFront)

end Exec

private theorem requireWriteState_post {rest : Exec State Unit} (ctl : Ctl s) (atFront : s.requests.head? = some req)
    (started : s.Started req) (next : wp rest (Post Own s) s) : wp (requireWriteState req rest) (Post Own s) s := by
  simp only [requireWriteState]
  rw [wp_get_bind]
  split
  · exact delay_post ctl atFront started _
  · exact next

theorem exec_post (sound : Sound h) (req : Req) (wf : Wf s) (ctl : Ctl s) (atFront : s.requests.head? = some req)
    (free : s.locked = 0) (started : s.Started req) : wp (exec h req) (Post Own s) s := by
  cases req with
  | connect id timeout =>
    refine wp_local_post sound wf ctl atFront started (.setFlags _) fun _ m wf ctl atFront started same => ?_
    have armed : Move m _ := .arm m (.connect id timeout) rfl atFront (same.trans free) started
    by_cases timed : timeout ≠ 0
    · simp only [Exec.when, if_pos timed]
      have set : Post Own m (.done () : Outcome Unit) _ :=
        ⟨.one (.own armed), fun _ => .frame ctl rfl rfl rfl fun _ => Iff.rfl⟩
      exact wp_modify_post set (submit_post sound (set.wf sound.own wf) set.ctl atFront started)
    · simp only [Exec.when, if_neg timed]
      exact submit_post sound wf ctl atFront started
  | write id bufs =>
    refine requireWriteState_post ctl atFront started ?_
    have passed : Post Own s (.done () : Outcome Unit) _ :=
      ⟨.one (.own (.pass s id bufs atFront started)),
        fun _ => .frame ctl rfl rfl rfl (s.log_started (Event.plain_own _))⟩
    exact wp_modify_post passed (submit_post sound (passed.wf sound.own wf) passed.ctl atFront started)
  | shutdown id timeout =>
    exact requireWriteState_post ctl atFront started (wp_local_post sound wf ctl atFront started (.setFlags _)
      fun _ m wf ctl atFront started _ => submitShutdown_post sound wf ctl atFront started)
  | disconnect id => exact Queue.done_post sound.toOk wf ctl (fun _ => .inl rfl) (.inl atFront)
  | accept id => exact activate_post ctl atFront started
  | runInOrder id => exact Queue.done_post sound.toOk wf ctl (fun _ => rfl) (.inl atFront)

theorem cancel_post (sound : Sound h) (req : Req) (err : Err) (wf : Wf s) (ctl : Ctl s)
    (atFront : s.requests.head? = some req) : wp (cancel h req err) (Post Own s) s := by
  cases req with
  | connect | write | runInOrder => exact handleEvent_post sound _ (some err) wf ctl atFront
  | shutdown id timeout =>
    simp only [cancel]
    rw [wp_get_bind]
    split
    · refine wp_local (.setTimedOut _ _) fun _ m handled => ?_
      have reached := handled.post ctl ()
      exact wp_mono (handleEvent_post sound _ _ (reached.wf sound.own wf) reached.ctl (handled.appends.front atFront))
        fun _ _ post => reached.trans post
    · exact handleEvent_post sound _ _ wf ctl atFront
  | disconnect id => exact Queue.done_post sound.toOk wf ctl (fun _ => .inr rfl) (.inl atFront)
  | accept id => exact Queue.done_post sound.toOk wf ctl (fun _ => rfl) (.inl atFront)

theorem members_sound (n : ℕ) : Sound (members n) := by
  induction n with
  | zero =>
    have spent : (Hooks.spent : Members).Ok Own := .spent fun _ _ => Move.wf
    refine ⟨spent, ?_, ?_, ?_⟩
    · exact fun _ _ _ _ => .lost nofun nofun
    · exact fun _ _ _ _ _ => .lost nofun nofun
    · exact fun _ _ _ _ _ _ => .lost nofun nofun
  | succ n ih =>
    refine ⟨⟨fun _ _ => Move.wf, ?_, ?_, ?_, ?_, user_post ih⟩, ?_, ?_, ?_⟩
    · exact fun s req wf ctl atFront free started => exec_post ih req wf ctl atFront free started
    · exact fun s req err wf ctl atFront => cancel_post ih req err wf ctl atFront
    · exact fun s req err => notify_post ih req err s
    · exact fun s f => call_post ih f s
    · exact fun s wf ctl busy => user_rel ih wf ctl busy
    · exact fun s f wf ctl busy => call_rel ih f wf ctl busy
    · exact fun s req err wf ctl busy => notify_rel ih req err wf ctl busy

end UniEvent.Stream
