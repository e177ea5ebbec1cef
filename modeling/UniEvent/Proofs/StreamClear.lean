import UniEvent.Proofs.StreamHeld

/-! # Callbacks that cancel while the queue is being canceled

Callbacks that run while `clear()` cancels the queue may call `reset()`, `clear()` or `disconnect()` or throw, but queue
no other request. `Clears` says what such code does under the lock: only disconnect requests are added, and once one of
these calls has come back nothing else is in the queue and the flags are those that `reset()` leaves. What only
`clear()` unsets (`kept`) is unset if and only if some call of `clear()` was innermost: the post step of a cancel runs
only if no other cancel ran meanwhile.
-/

namespace UniEvent.Stream

open Program Program.Exec

variable {s m t : State} {h : Members}

def Act.clears : Act → Bool
  | .op .reset | .op .clear | .op .disconnect | .ret | .throw | .stop => true
  | .op _ => false

/-- The callbacks cancel or throw and queue nothing but disconnect requests. -/
def Clearing (s : State) : Prop := ∀ act ∈ s.owner.script, act.clears = true

def Req.isDisconnect : Req → Bool
  | .disconnect _ => true
  | _ => false

def OnlyDisconnects (s : State) : Prop := ∀ req ∈ s.requests, req.isDisconnect = true

/-- The flags and the counter are as `_reset` leaves them. -/
def Clean (o : Handle) : Prop := o.flags = { dontRead := o.flags.dontRead } ∧ o.wqSize = 0

theorem Clean.notConnecting {flags : Flags} (clean : flags = { dontRead := flags.dontRead }) :
    { flags with connecting := false } = ({ dontRead := flags.dontRead } : Flags) := by
  cases flags
  simp_all

/-- What `clear()` unsets and `reset()` does not. -/
def Handle.kept (o : Handle) : Bool × Setup := (o.flags.dontRead, o.setup)

/-- The call of `clear()` ran its post step. -/
def Call.cleared (c : Call) : Bool := c.clear && c.innermost

/-- What is left of `kept` after the calls `new`. -/
def keptAfter (new : List Call) (kept : Bool × Setup) : Bool × Setup :=
  if new.any Call.cleared = true then (false, {}) else kept

private theorem keptAfter_append (later new : List Call) (kept : Bool × Setup) :
    keptAfter (later ++ new) kept = keptAfter later (keptAfter new kept) := by
  simp only [keptAfter, List.any_append, Bool.or_eq_true]
  split_ifs <;> simp_all

/-- What code of the callbacks and of the cancel around them does under its lock. -/
structure Clears (s t : State) : Prop where
  script : t.owner.script <:+ s.owner.script
  pushed : ∃ new, pushes t.trace = new ++ pushes s.trace ∧ ∀ req ∈ new, req.isDisconnect = true
  calls : ∃ new, t.owner.calls = new ++ s.owner.calls ∧ (new = [] ↔ resets t.trace = resets s.trace) ∧
    t.owner.kept = keptAfter new s.owner.kept
  only : OnlyDisconnects s ∨ resets s.trace < resets t.trace → OnlyDisconnects t
  clean : (OnlyDisconnects s ∧ Clean s.owner) ∨ resets s.trace < resets t.trace → Clean t.owner
  grows : resets s.trace ≤ resets t.trace

theorem Clears.trans (first : Clears s m) (second : Clears m t) : Clears s t where
  grows := first.grows.trans second.grows
  script := second.script.trans first.script
  pushed := by
    obtain ⟨new, pushed, disconnects⟩ := first.pushed
    obtain ⟨later, pushed', disconnects'⟩ := second.pushed
    refine ⟨later ++ new, by rw [pushed', pushed, List.append_assoc], fun req member => ?_⟩
    exact (List.mem_append.mp member).elim (disconnects' req) (disconnects req)
  calls := by
    obtain ⟨new, calls, none, kept⟩ := first.calls
    obtain ⟨later, calls', none', kept'⟩ := second.calls
    refine ⟨later ++ new, by rw [calls', calls, List.append_assoc], ?_, by rw [kept', kept, keptAfter_append]⟩
    have before := first.grows
    have after := second.grows
    rw [List.append_eq_nil_iff, none, none']
    omega
  only started := by
    refine second.only ?_
    rcases started with already | grown
    · exact .inl (first.only (.inl already))
    · by_cases inner : resets s.trace < resets m.trace
      · exact .inl (first.only (.inr inner))
      · exact .inr (by omega)
  clean started := by
    refine second.clean ?_
    rcases started with already | grown
    · exact .inl ⟨first.only (.inl already.1), first.clean (.inl already)⟩
    · by_cases inner : resets s.trace < resets m.trace
      · exact .inl ⟨first.only (.inr inner), first.clean (.inr inner)⟩
      · exact .inr (by omega)

theorem clears_links : Links Clears := fun _ _ _ _ first _ _ second => first.trans second

/-- Moves that add no request and call nothing. -/
theorem Clears.frame (script : t.owner.script <:+ s.owner.script) (pushed : pushes t.trace = pushes s.trace)
    (calls : t.owner.calls = s.owner.calls) (resets : resets t.trace = resets s.trace)
    (kept : t.owner.kept = s.owner.kept) (requests : t.requests <:+ s.requests)
    (clean : OnlyDisconnects s → Clean s.owner → Clean t.owner) : Clears s t where
  grows := Nat.le_of_eq resets.symm
  script := script
  pushed := ⟨[], pushed, by simp⟩
  calls := ⟨[], calls, by simp [resets], kept⟩
  only started := by
    rcases started with only | grown
    · exact fun req member => only req (requests.subset member)
    · omega
  clean started := by
    rcases started with already | grown
    · exact clean already.1 already.2
    · omega

theorem Clears.refl : Clears s s :=
  .frame (List.suffix_refl _) rfl rfl rfl rfl (List.suffix_refl _) fun _ => id

theorem clears_guides : Guides Clearing Clears where
  links := clears_links
  keeps _ _ holds clears act member := holds act (clears.script.subset member)
  refl _ := .refl
  script _ := .frame (List.tail_suffix _) rfl rfl rfl rfl (List.suffix_refl _) fun _ => id
  establishLeft _ _ := .frame (List.suffix_refl _) rfl rfl (by simp [World.log]) rfl (List.suffix_refl _) fun _ => id
  cancelCall _ _ := .frame (List.suffix_refl _) rfl rfl (by simp [World.log]) rfl (List.suffix_refl _) fun _ => id
  flush _ _ _ := .frame (List.suffix_refl _) rfl rfl (by simp) rfl (List.suffix_refl _) fun _ => id

/-! ### The operations -/

/-- `_reset`, and `_clear` if `clear`. -/
def wipe (clear : Bool) : Exec State Unit := if clear = true then _clear else _reset

theorem reset_clears (s : State) : Clears s (_reset s).2 :=
  .frame (List.suffix_refl _) rfl rfl (by simp [_reset, Exec.modify]) rfl (List.suffix_refl _) fun _ _ => ⟨rfl, rfl⟩

/-- What a call of `reset()`, or of `clear()` if `clear`, leaves, apart from the note about itself. -/
structure Wiped (clear : Bool) (s t : State) : Prop where
  script : t.owner.script <:+ s.owner.script
  pushed : ∃ new, pushes t.trace = new ++ pushes s.trace ∧ ∀ req ∈ new, req.isDisconnect = true
  calls : ∃ new, t.owner.calls = new ++ s.owner.calls ∧ (new = [] ↔ resets t.trace = resets s.trace) ∧
    t.owner.kept = keptAfter (⟨clear, decide (new = [])⟩ :: new) s.owner.kept
  only : OnlyDisconnects t
  clean : Clean t.owner
  grown : resets s.trace ≤ resets t.trace

/-- The post step runs if nothing else canceled meanwhile. -/
theorem Clears.wiped (clears : Clears s m) (clear : Bool) (same : resets m.trace = resets s.trace)
    (only : OnlyDisconnects m) : Wiped clear s (wipe clear m).2 := by
  obtain ⟨new, calls, none, kept⟩ := clears.calls
  obtain rfl := none.mpr same
  have unchanged : m.owner.kept = s.owner.kept := kept
  have zeroed : resets (.own (.zero m.requests) :: m.trace) = resets s.trace := by simp [same]
  cases clear with
  | false =>
    refine ⟨clears.script, clears.pushed, ⟨[], calls, by simp [wipe, _reset, Exec.modify, zeroed], ?_⟩, only,
      ⟨rfl, rfl⟩, ?_⟩
    · exact unchanged
    · exact Nat.le_of_eq zeroed.symm
  | true =>
    exact ⟨clears.script, clears.pushed, ⟨[], calls, by simp [wipe, _clear, Exec.modify, zeroed], rfl⟩,
      only, ⟨rfl, rfl⟩,
      Nat.le_of_eq zeroed.symm⟩

/-- The post step is skipped if something else canceled meanwhile. -/
theorem Clears.skipped (clears : Clears s m) (clear : Bool) (grown : resets s.trace < resets m.trace) :
    Wiped clear s m := by
  obtain ⟨new, calls, none, kept⟩ := clears.calls
  have some : new ≠ [] := fun empty => by
    have same := none.mp empty
    omega
  refine ⟨clears.script, clears.pushed, ⟨new, calls, none, ?_⟩, clears.only (.inr grown), clears.clean (.inr grown),
    Nat.le_of_lt grown⟩
  rw [kept]
  simp [keptAfter, Call.cleared, some]

/-- Without other cancels everything that waited has left, and only disconnect requests were added. -/
theorem Clears.only_of_effect {notified : List Req} (clears : Clears s m) (effect : Effect notified s.requests s m) :
    OnlyDisconnects m := by
  obtain ⟨new, waiting, pushed⟩ := effect.behind (List.append_nil _).symm
  obtain ⟨added, pushed', disconnects⟩ := clears.pushed
  have same : added = new.reverse := List.append_cancel_right (pushed'.symm.trans pushed)
  intro req member
  rw [waiting, List.nil_append] at member
  exact disconnects req (by rw [same]; exact List.mem_reverse.mpr member)

theorem wipe_spec (clear : Bool) : Queue.Spec Own (wipe clear) := by
  cases clear with
  | false => exact resetHandle_spec
  | true => exact clearHandle_spec

private theorem wipe_done (clear : Bool) (m : State) : (wipe clear m).1 = .done () := by
  cases clear <;> rfl

theorem Wiped.called {clear : Bool} (wiped : Wiped clear ((s.log (.own .resetCall)).beginCancel none) t) :
    resets s.trace + 1 ≤ resets t.trace := by
  simpa [World.beginCancel, World.lock, World.log] using wiped.grown

/-- The note about the call completes the picture. -/
theorem Wiped.clears {clear : Bool} (wiped : Wiped clear ((s.log (.own .resetCall)).beginCancel none) t) :
    Clears s (noted clear s t.endCancel) where
  script := wiped.script
  pushed := wiped.pushed
  calls := by
    obtain ⟨new, calls, none, kept⟩ := wiped.calls
    have calls' : t.owner.calls = new ++ s.owner.calls := calls
    have inner : decide (t.owner.calls.length = s.owner.calls.length) = decide (new = []) := by
      rw [calls', List.length_append]
      simp
    refine ⟨⟨clear, decide (new = [])⟩ :: new, ?_, ?_, kept⟩
    · change ⟨clear, decide (t.owner.calls.length = s.owner.calls.length)⟩ :: t.owner.calls = _
      rw [inner, calls', List.cons_append]
    · have called := wiped.called
      simp only [reduceCtorEq, false_iff]
      exact (Nat.ne_of_lt called).symm
  only _ := wiped.only
  clean _ := wiped.clean
  grows := by
    have called : resets s.trace + 1 ≤ resets t.trace := wiped.called
    exact Nat.le_of_succ_le called

section

variable (guided : Guided Clearing Clears h)

include guided

theorem cancelLocked_wiped (clear : Bool) (wf : Wf s) (ctl : Ctl s)
    (held : 0 < s.locked) (clearing : Clearing s) (mark : s.cancelTill = s.requests.getLast?) :
    wp (Queue.cancelLocked h (pure ()) (wipe clear) s.cancelGen) (fun o t => o.Returned → Wiped clear s t) s := by
  have sweeps := cancelPending_sweeps_pure guided.toSharp wf ctl held (List.append_nil _).symm mark
  have cleared : wp (Queue.cancelPending h (pure ())) (Queue.Cleared Own s) s :=
    Queue.cancelPending_post guided.toOk wf ctl held fun _ _ ctl => Post.refl ctl
  have pending : Held Clears (Queue.cancelPending h (pure ())) s :=
    cancelPending_held clears_guides guided wf ctl held clearing fun m _ ctl _ _ _ _ =>
      .done rfl (Post.refl ctl) .refl
  simp only [Queue.cancelLocked]
  rw [wp_bind]
  refine wp_mono (wp_and (wp_and sweeps cleared) pending.back) ?_
  rintro (kept | why) m ⟨⟨sweeps, cleared⟩, clears⟩
  · rw [next_done]
    refine wp_map_back (Q := Wiped clear s) ?_
    simp only [Queue.postCancel]
    rw [wp_get_bind]
    rcases sweeps.back trivial with effect | canceled
    · rw [if_pos effect.gen.symm]
      refine wp_attempt_back (Q := Wiped clear s) ?_
      have wiped := (clears trivial).wiped clear effect.resets ((clears trivial).only_of_effect effect)
      rw [wp_bind, wp, wipe_done]
      exact fun _ => { wiped with }
    · rw [if_neg (Nat.ne_of_lt canceled.1)]
      exact fun _ => (clears trivial).skipped clear canceled.2
  · exact fun returned => (cleared.kept (congrArg Outcome.halt returned)).elim

/-- `reset()` and `clear()` under a lock. -/
theorem wipe_held (clear : Bool) (wf : Wf s) (ctl : Ctl s) (held : 0 < s.locked)
    (clearing : Clearing s) :
    Held Clears (noting clear (do note .resetCall; Queue.cancel h (pure ()) (wipe clear) none)) s := by
  refine ⟨noting_post (reset_post guided.toOk wf ctl (wipe_spec clear)), ?_⟩
  have entered := note_post ctl (.resetCall s)
  let called : State := s.log (.own .resetCall)
  have wf' := Queue.beginCancel_wf (entered.wf guided.own wf) none
  have ctl' : Ctl (called.beginCancel none) := Queue.beginCancel_ctl fun _ none => by cases none
  have locked := cancelLocked_wiped guided clear wf' ctl' (Nat.succ_pos _) clearing rfl
  have cleared : wp (Queue.cancelLocked h (pure ()) (wipe clear) called.cancelGen)
      (Queue.Cleared Own (called.beginCancel none)) (called.beginCancel none) :=
    Queue.cancelLocked_post guided.toOk _ wf' ctl' (Nat.succ_pos _) (fun _ _ ctl => Post.refl ctl)
      fun _ wf ctl _ => wipe_spec clear _ wf ctl
  refine wp_noting_back (R := fun t => Clears s (noted clear s t)) ?_ fun _ clears => clears
  exact wp_cancel_held (s := called) (R := fun t => Clears s (noted clear s t)) held cleared
    (wp_mono locked fun _ _ wiped returned => (wiped returned).clears)

/-- `disconnect()` of a stream that is busy with something else. -/
theorem pushDisconnect_held (wf : Wf s) (ctl : Ctl s) (held : 0 < s.locked) :
    Held Clears (pushNew h .disconnect) s := by
  refine ⟨pushNew_post guided.toOk wf ctl (fun _ => rfl) fun _ => rfl, ?_⟩
  have same : resets (.push (.disconnect (freshId s)) :: s.trace) = resets s.trace := by simp
  have added : Clears s (s.enqueue (.disconnect (freshId s))) := by
    refine ⟨List.suffix_refl _, ⟨[.disconnect (freshId s)], rfl, by simp [Req.isDisconnect]⟩,
      ⟨[], rfl, ?_, rfl⟩, ?_, ?_, ?_⟩
    · simp [same]
    · rintro (only | grown) req member
      · rcases List.mem_append.mp member with old | new
        · exact only req old
        · rw [List.mem_singleton.mp new]
          rfl
      · simp at grown
    · rintro (already | grown)
      · exact already.2
      · simp at grown
    · exact Nat.le_of_eq same.symm
  simp only [pushNew, Queue.push, Queue.pushed, wp_bind, wp_get, next_done, wp_modify, wp_when]
  refine ⟨fun idle => absurd idle.2 (Nat.ne_of_gt held), fun _ _ => ?_⟩
  exact { added with }

private theorem runOp_clears {op : Op} (allowed : (Act.op op).clears = true)
    (wf : Wf s) (ctl : Ctl s) (held : 0 < s.locked) (clearing : Clearing s) : Held Clears (runOp h op) s := by
  cases op with
  | reset => exact wipe_held guided false wf ctl held clearing
  | clear => exact wipe_held guided true wf ctl held clearing
  | disconnect =>
    refine .get ?_
    split
    · exact .done rfl (zero_post ctl _ _) (reset_clears s)
    · split
      · exact wipe_held guided false wf ctl held clearing
      · exact pushDisconnect_held guided wf ctl held
  | _ => cases allowed

theorem user_clears (wf : Wf s) (ctl : Ctl s) (held : 0 < s.locked) (clearing : Clearing s) : Held Clears (user h) s :=
  user_held clears_guides guided.toSound wf ctl held clearing
    (fun _ _ wf' ctl' held' clearing' member => runOp_clears guided (clearing _ member) wf' ctl' held' clearing')
    guided.userHeld

private theorem call_clears (f : Fn) (wf : Wf s) (ctl : Ctl s) (held : 0 < s.locked)
    (clearing : Clearing s) : Held Clears (call h f) s := by
  cases f with
  | notifyOn req err => exact user_clears guided wf ctl held clearing
  | reset => exact .done rfl (zero_post ctl _ _) (reset_clears s)
  | code req => exact user_clears guided wf ctl held clearing
  | nothing => exact .done rfl (Post.refl ctl) .refl

private theorem notify_clears (req : Req) (err : Err) (wf : Wf s) (ctl : Ctl s)
    (held : 0 < s.locked) (clearing : Clearing s) : Held Clears (notify h req err) s := by
  cases req with
  | connect | write | shutdown => exact user_clears guided wf ctl held clearing
  | _ => exact .done rfl (Post.refl ctl) .refl

/-! ### Requests that are canceled -/

theorem done_clears (wf : Wf s) (ctl : Ctl s) (held : 0 < s.locked)
    (clearing : Clearing s) {check : Req} {f : Fn} (fits : s.requests.head? = some check → Fits s check f)
    (lost : s.requests.head? = some check ∨ ¬ ResetsClear s.trace) : Held Clears (Queue.done h check f) s := by
  refine done_held guided.toSound wf ctl held fits lost (fun split _ => ?_) fun path wf' ctl' => ?_
  · exact .frame (List.suffix_refl _) rfl rfl (by simp) rfl (List.tail_suffix _) fun _ => id
  · have moved : Clears s (finishing s check f) :=
      .frame (List.suffix_refl _) rfl rfl (by simp [finishing]) rfl (List.tail_suffix _) fun _ => id
    have inner := guided.callHeld _ f wf' ctl' (Nat.succ_pos _) (clears_guides.keeps _ _ clearing moved)
    refine wp_mono (wp_and inner.post inner.back) ?_
    rintro o t ⟨post, back⟩ returned
    have whole := clears_links path moved post.path (post.back returned) (back returned)
    exact { whole with }

end

/-- Code that only touches the handle, and of the flags not `DONTREAD`. -/
theorem Handled.clears (handled : Handled s t) (calls : t.owner.calls = s.owner.calls)
    (kept : t.owner.kept = s.owner.kept) (clean : OnlyDisconnects s → Clean s.owner → Clean t.owner) : Clears s t := by
  obtain ⟨owner, rfl, _, _, _, script⟩ := handled
  exact .frame script rfl calls rfl kept (List.suffix_refl _) clean

/-- The post step of a cancel that resets. -/
theorem postCancel_clears (s : State) (gen : ℕ) : wp (Queue.postCancel _reset gen) (fun _ t => Clears s t) s := by
  simp only [Queue.postCancel, wp_bind, wp_get, next_done]
  have reset := reset_clears s
  split
  · exact { reset with }
  · exact .refl

section

variable (guided : Guided Clearing Clears h)

include guided

/-- The completion of a connect that failed or was canceled. -/
theorem finalizeHandleConnect_clears {req : Req} (connect : req.isConnect = true)
    (err : Err) (wf : Wf s) (ctl : Ctl s) (held : 0 < s.locked) (clearing : Clearing s) (ready : Completing req s) :
    Held Clears (finalizeHandleConnect h (some err) req) s := by
  let stopped : State := { s with
    owner := { s.owner with
      flags := { s.owner.flags with connecting := false }
      connectTimer := Function.update s.owner.connectTimer req false } }
  have handled : Handled s stopped :=
    Handled.trans (Local.setFlags (fun f => { f with connecting := false }) s).2
      (Local.stopConnectTimer req
        { s with owner := { s.owner with flags := { s.owner.flags with connecting := false } } }).2
  have stops : Clears s stopped := handled.clears rfl rfl fun _ clean => ⟨Clean.notConnecting clean.1, clean.2⟩
  have reached := handled.post ctl ()
  have wf' := reached.wf guided.own wf
  have clearing' := clears_guides.keeps _ _ clearing stops
  have ready' : Completing req stopped := ready.after reached.path (.inl handled.appends)
  have off : stopped.owner.connectTimer req = false := by simp [stopped]
  have fits (m : State) (timer : m.owner.connectTimer req = false) : Fits m req (.notifyOn req (some err)) := by
    cases req with
    | connect id timeout => exact ⟨⟨_, rfl⟩, timer⟩
    | _ => cases connect
  have same : finalizeHandleConnect h (some err) req s =
      (Exec.modify (fun _ => stopped) >>= fun _ =>
        if (some err).or none = none ∨ stopped.cancelTill ≠ none then Queue.done h req (.notifyOn req (some err))
        else Queue.cancel h (Queue.done h req (.notifyOn req (some err))) _reset none) s := rfl
  refine ⟨finalizeHandleConnect_post guided.toSound connect _ wf ctl ready, ?_⟩
  rw [wp, same]
  split
  · have inner := done_clears guided wf' reached.ctl held clearing' (fun _ => fits stopped off) (ready'.imp And.left id)
    exact fun returned => clears_links reached.path stops inner.post.path (inner.post.back returned)
      (inner.back returned)
  · let begun : State := stopped.beginCancel none
    have wf₁ : Wf begun := Queue.beginCancel_wf wf' none
    have ctl₁ : Ctl begun := Queue.beginCancel_ctl fun _ none => by cases none
    have pre (m : State) (wf : Wf m) (ctl : Ctl m) (held : 0 < m.locked) (clearing : Clearing m)
      (path : Path Own begun m)
        (rel : Rel begun.finalizedRequests begun m) : Held Clears (Queue.done h req (.notifyOn req (some err))) m := by
      have begins : Completing req begun := ready'
      exact done_clears guided wf ctl held clearing
        (fun _ => fits m (connectTimer_off (Nat.succ_pos _) path off)) ((begins.after path rel).imp And.left id)
    have pending := cancelPending_held clears_guides guided wf₁ ctl₁ (Nat.succ_pos _) clearing' pre
    have flushed := wp_and (Queue.flushFinalized_post guided.toOk h.budget begun wf₁ ctl₁)
      (flushFinalized_rel guided.toSound h.budget begun wf₁ ctl₁ (Nat.succ_pos _))
    have cleared : wp (Queue.cancelLocked h (Queue.done h req (.notifyOn req (some err))) _reset stopped.cancelGen)
        (Queue.Cleared Own begun) begun := by
      refine Queue.cancelLocked_post guided.toOk _ wf₁ ctl₁ (Nat.succ_pos _) (wp_mono flushed ?_)
        fun _ wf ctl _ => resetHandle_spec _ wf ctl
      rintro o m ⟨quiet, rel⟩ returned wf₂ ctl₂
      have begins : Completing req begun := ready'
      exact done_connect_post guided.toSound connect _ wf₂ ctl₂ (begins.after quiet.post.path (rel.back returned))
        (connectTimer_off (Nat.succ_pos _) quiet.post.path off)
    have inner : wp (Queue.cancelLocked h (Queue.done h req (.notifyOn req (some err))) _reset stopped.cancelGen)
        (fun o p => o.Returned → Clears s p.endCancel) begun := by
      simp only [Queue.cancelLocked]
      rw [wp_bind]
      refine wp_mono pending.back ?_
      have whole {p : State} (clears : Clears begun p) : Clears s p.endCancel :=
        stops.trans { clears with }
      rintro (kept | why) m clears
      · rw [next_done]
        refine wp_map_back (Q := fun p => Clears s p.endCancel) (wp_mono (postCancel_clears m _) fun o p last _ => ?_)
        exact whole ((clears trivial).trans last)
      · exact fun returned => whole (clears returned)
    exact wp_cancel_held (s := stopped) (R := fun t => Clears s t) held cleared inner

private theorem connectEvent_clears {id timeout : ℕ} (wf : Wf s) (ctl : Ctl s)
    (held : 0 < s.locked) (clearing : Clearing s) (atFront : s.requests.head? = some (.connect id timeout)) :
    Held Clears (handleEvent h (.connect id timeout) (some .canceled)) s := by
  have noted := note_post ctl (.connectEvent s (.connect id timeout) rfl atFront)
  have begins : Clears s (s.log (.own (.connectEvent (.connect id timeout)))) :=
    .frame (List.suffix_refl _) rfl rfl (by simp) rfl (List.suffix_refl _) fun _ clean => clean
  have wf' := noted.wf guided.own wf
  have clearing' := clears_guides.keeps _ _ clearing begins
  have begun : Completing (.connect id timeout) (s.log (.own (.connectEvent (.connect id timeout)))) :=
    .inl ⟨atFront, connectEvent_opens s _⟩
  have same : handleEvent h (.connect id timeout) (some .canceled) s =
      (Exec.modify (World.log (.own (.connectEvent (.connect id timeout)))) >>= fun _ =>
        onEstablish h (.connect id timeout) >>= fun _ =>
        finalizeHandleConnect h (some .canceled) (.connect id timeout)) s := rfl
  refine .congr same (.modify clears_links noted begins ?_)
  have established :
    Held Clears (onEstablish h (.connect id timeout)) (s.log (.own (.connectEvent (.connect id timeout)))) :=
    onEstablish_held clears_guides (user_clears guided wf' noted.ctl held clearing')
  refine established.bind_knowing clears_links (E := Completing (.connect id timeout)) ?_
    fun _ m post clears ready => ?_
  · have rel := onEstablish_rel guided.toSound (.connect id timeout) wf' noted.ctl (.inl held)
    exact fun value same => begun.after established.post.path (rel.1 same)
  · have held' : 0 < m.locked := by rw [(post.back trivial).locked]; exact held
    exact finalizeHandleConnect_clears guided rfl .canceled (post.wf guided.own wf') post.ctl held'
      (clears_guides.keeps _ _ clearing' clears) ready

/-- The other requests leave through `done` after code that only touches the handle. -/
theorem doneAfter_clears (wf : Wf s) (ctl : Ctl s) (held : 0 < s.locked)
    (clearing : Clearing s) {req : Req} (atFront : s.requests.head? = some req) {f : Fn} (handled : Handled s m)
    (fits : Fits m req f) (clears : Clears s m) :
    wp (Queue.done h req f) (fun o t => o.Returned → Clears s t) m := by
  have reached := handled.post ctl ()
  have held' : 0 < m.locked := by rw [handled.appends.locked]; exact held
  have inner := done_clears guided (reached.wf guided.own wf) reached.ctl held'
    (clears_guides.keeps _ _ clearing clears) (fun _ => fits) (.inl (handled.appends.front atFront))
  exact fun returned => clears.trans (inner.back returned)

private theorem shutdownEvent_clears {id timeout : ℕ} (err : Err) (wf : Wf s)
    (ctl : Ctl s) (held : 0 < s.locked) (clearing : Clearing s)
    (atFront : s.requests.head? = some (.shutdown id timeout)) :
    wp (handleEvent h (.shutdown id timeout) (some err)) (fun o t => o.Returned → Clears s t) s := by
  let flags : Flags := { s.owner.flags with shutting := false, shut := true }
  have handled : Handled s { s with owner := { s.owner with
      flags, shutdownTimer := Function.update s.owner.shutdownTimer (.shutdown id timeout) false } } :=
    Handled.trans (Local.setShutdown false s).2
      (Local.stopShutdownTimer (.shutdown id timeout) { s with owner := { s.owner with flags } }).2
  have clears : Clears s _ := handled.clears rfl rfl fun only => by
    have disconnect := only _ (List.mem_of_head? atFront)
    cases disconnect
  exact doneAfter_clears guided wf ctl held clearing atFront handled ⟨⟨_, rfl⟩, by simp⟩ clears

private theorem cancel_clears (req : Req) (wf : Wf s) (ctl : Ctl s)
    (held : 0 < s.locked) (clearing : Clearing s) (atFront : s.requests.head? = some req) :
    Held Clears (cancel h req .canceled) s := by
  refine ⟨cancel_post guided.toSound req _ wf ctl atFront, ?_⟩
  cases req with
  | connect id timeout => exact (connectEvent_clears guided wf ctl held clearing atFront).back
  | runInOrder id => exact fun _ => .refl
  | write id bufs => exact doneAfter_clears guided wf ctl held clearing atFront .refl ⟨_, rfl⟩ .refl
  | disconnect id => exact doneAfter_clears guided wf ctl held clearing atFront .refl (.inr rfl) .refl
  | accept id => exact doneAfter_clears guided wf ctl held clearing atFront .refl rfl .refl
  | shutdown id timeout =>
    simp only [cancel]
    rw [wp_get_bind]
    split
    · let noted : State := { s with
        owner := { s.owner with timedOut := Function.update s.owner.timedOut (.shutdown id timeout) false } }
      have handled : Handled s noted := (Local.setTimedOut (.shutdown id timeout) false s).2
      have reached := handled.post ctl ()
      have clears : Clears s noted := handled.clears rfl rfl fun _ clean => clean
      have inner := shutdownEvent_clears guided .timedOut (reached.wf guided.own wf) reached.ctl held
        (clears_guides.keeps _ _ clearing clears) atFront
      exact fun returned => clears.trans (inner returned)
    · exact shutdownEvent_clears guided .canceled wf ctl held clearing atFront

end

/-- Members of any depth. -/
theorem members_clears (n : ℕ) : Guided Clearing Clears (members n) := by
  induction n with
  | zero =>
    have spent {c : Exec State Unit} (same : c = halt .exhausted) (s : State) : Held Clears c s := by
      rw [same]
      exact ⟨.halted .refl (by decide), fun returned => by cases returned⟩
    exact ⟨members_sharp 0, fun s _ _ _ _ => spent rfl s, fun s _ _ _ _ _ => spent rfl s,
      fun s _ _ _ _ _ _ => spent rfl s,
      fun s _ _ _ _ _ _ _ => spent rfl s⟩
  | succ n ih =>
    exact ⟨members_sharp (n + 1), fun s => user_clears ih, fun s f => call_clears ih f,
      fun s req err => notify_clears ih req err,
      fun s req wf ctl held _ atFront clearing => cancel_clears ih req wf ctl held clearing atFront⟩

end UniEvent.Stream
