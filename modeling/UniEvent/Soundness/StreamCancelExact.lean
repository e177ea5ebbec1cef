import UniEvent.Proofs.StreamEnds
import UniEvent.Proofs.StreamParked
import UniEvent.Proofs.StreamRun

/-! # A cancel is exact and ends

`reset()`, `clear()`, a failed connect and the timer of a shutdown cancel the queue up to a mark. `drain` is
the part of such a call before it lets the queue go on. `Exact` says what it should have done: the
requests up to the mark have left through `done`, in order and once each, the parked ones have been
notified, and what was behind the mark or was pushed meanwhile still waits. `Emptied` says what is left of
this when the call returns: the queue goes on, and a connect that fails then cancels it again.

Enough depth makes the call end. It is exact if no run-in-order request is up to the mark, since nothing
cancels one and the assertion behind the call fails, and if no exception leaves `on_establish` when a
connect is canceled. Callbacks may push, but neither cancel nor push a request that is being canceled.
-/

namespace UniEvent.Stream

open Program Program.Exec

/-- The ways in which the stream cancels its queue; `reset()` and `clear()` themselves have no mark. -/
inductive Use where
  | reset (till : Option Req)
  | clear (till : Option Req)
  | failedConnect (req : Req) (err : Option Err)
  | shutdownTimeout (req prev : Req)

namespace Use

def till : Use → Option Req
  | .reset till | .clear till => till
  | .failedConnect _ _ => none
  | .shutdownTimeout _ prev => some prev

def pre (h : Members) : Use → Exec State Unit
  | .failedConnect req err => Queue.done h req (.notifyOn req err)
  | .reset _ | .clear _ | .shutdownTimeout _ _ => Pure.pure ()

def post (h : Members) : Use → Exec State Unit
  | .reset _ | .failedConnect _ _ => _reset
  | .clear _ => _clear
  | .shutdownTimeout req _ => Stream.cancel h req .timedOut

def cancel (h : Members) (use : Use) : Exec State Unit := Queue.cancel h (use.pre h) (use.post h) use.till

/-- `cancel` up to the `resume()` with which it lets the queue go on. -/
def drain (h : Members) (use : Use) : Exec State Bool := do
  modify (World.beginCancel use.till)
  let s ← get
  let kept ← Queue.cancelLocked h (use.pre h) (use.post h) s.cancelGen
  modify World.endCancel
  Pure.pure kept

/-- The request that the post step completes. -/
def extra : Use → List Req
  | .shutdownTimeout req _ => [req]
  | .reset _ | .clear _ | .failedConnect _ _ => []

end Use

/-- The requests up to and including `till`, or all. -/
def upTo : Option Req → List Req → List Req
  | none, requests => requests
  | some mark, requests => requests.takeWhile (fun other => decide (other ≠ mark)) ++ [mark]

/-- When the stream makes the call. -/
def Use.Applies (s : State) : Use → Prop
  | .reset till | .clear till => ∀ mark ∈ till, mark ∈ s.requests
  | .failedConnect req _ => s.requests.head? = some req ∧ req.isConnect = true ∧ s.owner.connectTimer req = false ∧
      openConnects s.trace ≠ []
  | .shutdownTimeout req prev => req.isShutdown = true ∧ ∃ before rest, s.requests = before ++ prev :: req :: rest

/-- What the call should have done when it lets the queue go on. -/
structure Exact (use : Use) (s t : State) : Prop where
  removed : dones t.trace = (upTo use.till s.requests ++ use.extra).reverse ++ dones s.trace
  notified : notifies t.trace = s.finalizedRequests.reverse ++ notifies s.trace
  kept : ∃ rest new, s.requests = upTo use.till s.requests ++ use.extra ++ rest ∧ t.requests = rest ++ new ∧
    pushes t.trace = new.reverse ++ pushes s.trace
  parked : t.finalizedRequests.Sublist (upTo use.till s.requests ++ use.extra)
  free : t.locked = s.locked ∧ t.cancelTill = none

/-- What holds when the call returns in `u`, having let the queue go on in `t`. -/
structure Emptied (use : Use) (s t u : State) : Prop where
  removed : dones t.trace <:+ dones u.trace
  notified : notifies t.trace <:+ notifies u.trace
  gone : ∀ req ∈ upTo use.till s.requests, req ∉ u.requests ∧
    ∀ requests, .done req requests ∈ eventsSince t u → requests.head? ≠ some req
  spared : (∀ req, .own (.connectEvent req) ∉ eventsSince t u) → ∀ req, .cancel req ∉ eventsSince t u

/-- The callbacks of the call did not cancel, and pushed only requests that were not to be canceled. -/
structure PushesOnly (use : Use) (s t : State) : Prop where
  resets : resets t.trace = resets s.trace
  fresh : ∀ req ∈ upTo use.till s.requests, (pushes t.trace).count req = (pushes s.trace).count req

section Uses
variable (h : Members)

private theorem reset_uses : reset h = (do note .resetCall; Use.cancel h (.reset none)) := rfl

private theorem clear_uses : clear h = (do note .resetCall; Use.cancel h (.clear none)) := rfl

private theorem finalizeHandleConnect_uses (connectErr : Option Err) (req : Req) :
    finalizeHandleConnect h connectErr req = (do
      let startErr ← setConnectResult (decide (connectErr = none))
      update fun o => { o with connectTimer := Function.update o.connectTimer req false }
      let s ← get
      if connectErr.or startErr = none ∨ s.cancelTill ≠ none then
        Queue.done h req (.notifyOn req (connectErr.or startErr))
      else Use.cancel h (.failedConnect req (connectErr.or startErr))) := rfl

private theorem shutdownTimeout_uses (req : Req) :
    shutdownTimeout h req = (do
      let s ← get
      match (s.requests.takeWhile fun other => decide (other ≠ req)).getLast? with
      | some prev => do
        update fun o => { o with timedOut := Function.update o.timedOut req true }
        Use.cancel h (.shutdownTimeout req prev)
      | none => cancel h req .timedOut) := rfl

end Uses

variable {s m t u : State} {h : Members} {use : Use}

/-- The whole call is its `drain`, after which the queue goes on and kept exceptions are thrown. -/
theorem cancel_eq_drain (h : Members) (use : Use) :
    use.cancel h = (do
      let kept ← use.drain h
      Queue.resume h
      when (kept = true) (halt .thrown)) := by
  funext s
  simp only [Use.cancel, Use.drain, Queue.cancel, bind, Exec.modify, Exec.get, Pure.pure]
  rcases Queue.cancelLocked h (use.pre h) (use.post h) _ _ with ⟨kept | why, t⟩ <;> rfl

/-- The members of the stream that cancel its queue, and a cancel with any mark. -/
inductive Canceler where
  | queue (use : Use)
  | reset
  | clear
  | finalizeHandleConnect (connectErr : Option Err) (req : Req)
  | shutdownTimeout (req : Req)

namespace Canceler

def run (h : Members) : Canceler → Exec State Unit
  | .queue use => use.cancel h
  | .reset => Stream.reset h
  | .clear => Stream.clear h
  | .finalizeHandleConnect connectErr req => Stream.finalizeHandleConnect h connectErr req
  | .shutdownTimeout req => Stream.shutdownTimeout h req

/-- The cancel that the member makes, and the state in which it does. -/
inductive Enters : Canceler → State → Use → State → Prop
  | queue (use : Use) (s : State) : Enters (.queue use) s use s
  | reset (s : State) : Enters .reset s (.reset none) (s.log (.own .resetCall))
  | clear (s : State) : Enters .clear s (.clear none) (s.log (.own .resetCall))
  | failedConnect {s t : State} {connectErr startErr : Option Err} (req : Req)
      (result : setConnectResult (decide (connectErr = none)) s = (.done startErr, t))
      (failed : ¬ (connectErr.or startErr = none ∨ t.cancelTill ≠ none)) :
      Enters (.finalizeHandleConnect connectErr req) s (.failedConnect req (connectErr.or startErr))
        { t with owner := { t.owner with connectTimer := Function.update t.owner.connectTimer req false } }
  | shutdownTimeout {s : State} {req prev : Req}
      (before : (s.requests.takeWhile fun other => decide (other ≠ req)).getLast? = some prev) :
      Enters (.shutdownTimeout req) s (.shutdownTimeout req prev)
        { s with owner := { s.owner with timedOut := Function.update s.owner.timedOut req true } }

theorem Enters.run_eq {c : Canceler} (enters : c.Enters s use m) (h : Members) : c.run h s = use.cancel h m := by
  cases enters with
  | queue => rfl
  | reset => exact congrFun (reset_uses h) s
  | clear => exact congrFun (clear_uses h) s
  | failedConnect req result failed =>
    refine (congrFun (finalizeHandleConnect_uses h _ req) s).trans ?_
    simp only [bind, result, update, Exec.modify, Exec.get, if_neg failed]
  | shutdownTimeout before =>
    refine (congrFun (shutdownTimeout_uses h _) s).trans ?_
    simp only [bind, Exec.get, before, update, Exec.modify]

end Canceler

/-! ### The segment -/

private theorem upTo_split {mark : Req} {before rest requests : List Req} (unique : requests.Nodup)
    (split : requests = before ++ mark :: rest) : upTo (some mark) requests = before ++ [mark] := by
  subst split
  have absent : ∀ other ∈ before, other ≠ mark := by
    intro other member same
    exact (List.nodup_append.mp unique).2.2 other member mark (List.mem_cons_self ..) same
  rw [upTo, List.takeWhile_append_of_pos (by simpa using absent)]
  simp

namespace Use

/-- The requests that the pre step completes. -/
def before : Use → List Req
  | .failedConnect req _ => [req]
  | .reset _ | .clear _ | .shutdownTimeout _ _ => []

theorem Applies.mark (applies : use.Applies s) : ∀ mark, use.till = some mark → mark ∈ s.requests := by
  intro mark same
  cases use with
  | reset till | clear till => exact applies mark same
  | failedConnect => cases same
  | shutdownTimeout req prev =>
    obtain ⟨_, before, rest, requests⟩ := applies
    cases same
    simp [requests]

private theorem upTo_mark (wf : Wf s) {till : Option Req} (member : ∀ mark, till = some mark → mark ∈ s.requests) :
    ∃ rest, s.requests = upTo till s.requests ++ rest ∧
      (s.beginCancel till).cancelTill = (upTo till s.requests).getLast? := by
  cases till with
  | none => exact ⟨[], (List.append_nil _).symm, rfl⟩
  | some mark =>
    obtain ⟨before, rest, requests⟩ := List.append_of_mem (member mark rfl)
    rw [upTo_split (List.nodup_append.mp wf.nodup).2.1 requests]
    exact ⟨rest, by simp [requests], by simp [World.beginCancel]⟩

/-- The queue is cut into what the pre step completes, what is canceled, what the post step completes and
the rest. -/
theorem Applies.split (applies : use.Applies s) (wf : Wf s) :
    ∃ seg rest, s.requests = use.before ++ seg ++ (use.extra ++ rest) ∧
      upTo use.till s.requests = use.before ++ seg ∧
      (s.beginCancel use.till).cancelTill = (use.before ++ seg).getLast? := by
  obtain ⟨rest, requests, mark⟩ := upTo_mark wf applies.mark
  cases use with
  | reset till | clear till => exact ⟨_, rest, requests, rfl, mark⟩
  | failedConnect req err =>
    obtain ⟨later, queue⟩ := List.head?_eq_some_iff.mp applies.1
    exact ⟨later, [], by simpa [before, extra] using queue, queue, mark.trans (congrArg List.getLast? queue)⟩
  | shutdownTimeout req prev =>
    obtain ⟨_, front, rest', queue⟩ := applies
    have seg := upTo_split (List.nodup_append.mp wf.nodup).2.1 queue
    exact ⟨front ++ [prev], rest', by simpa [before, extra] using queue, seg, mark.trans (congrArg List.getLast? seg)⟩

/-! ### The steps of the call -/

section Steps
variable (applies : use.Applies s)
include applies

/-- A failed connect is completed by the pre step, even after a callback has canceled. -/
theorem Applies.preDone {err : Option Err} {req : Req} (sound : Sound h) (same : use = .failedConnect req err)
    (wf : Wf m) (ctl : Ctl m) (path : Path Own (s.beginCancel use.till) m)
    (rel : Rel s.finalizedRequests (s.beginCancel use.till) m) :
    wp (Queue.done h req (.notifyOn req err)) (Post Own m) m := by
  subst same
  obtain ⟨atFront, connect, off, opened⟩ := applies
  have ready : Completing req (s.beginCancel none) := .inl ⟨atFront, opened⟩
  exact done_connect_post sound connect err wf ctl (ready.after path rel) (connectTimer_off (Nat.succ_pos _) path off)

theorem Applies.pre_post (sound : Sound h) (wf : Wf m) (ctl : Ctl m) (path : Path Own (s.beginCancel use.till) m)
    (rel : Rel s.finalizedRequests (s.beginCancel use.till) m) : wp (use.pre h) (Post Own m) m := by
  cases use with
  | reset | clear | shutdownTimeout => exact Post.refl ctl
  | failedConnect req err => exact applies.preDone sound rfl wf ctl path rel

/-- The connect is at the front and its timer is off. -/
theorem Applies.pre_fits (path : Path Own (s.beginCancel use.till) m)
    (effect : Effect s.finalizedRequests [] (s.beginCancel use.till) m) {req : Req} {err : Option Err}
    (same : use = .failedConnect req err) :
    Fits m req (.notifyOn req err) ∧ m.requests.head? = some req ∧ req.isRunInOrder = false := by
  subst same
  obtain ⟨atFront, connect, off, _⟩ := applies
  refine ⟨?_, effect.front atFront, ?_⟩
  · cases req with
    | connect id timeout => exact ⟨⟨err, rfl⟩, connectTimer_off (Nat.succ_pos _) path off⟩
    | _ => cases connect
  · cases req <;> first | rfl | cases connect

theorem Applies.pre_yields (sound : Sound h) (wf : Wf m) (ctl : Ctl m) (held : 0 < m.locked)
    (path : Path Own (s.beginCancel use.till) m) (effect : Effect s.finalizedRequests [] (s.beginCancel use.till) m) :
    wp (use.pre h) (Yields (Drained [] use.before m) m) m := by
  cases use with
  | reset | clear | shutdownTimeout => exact ⟨fun _ => .inl .refl, .done ()⟩
  | failedConnect req err =>
    obtain ⟨fits, atFront, ordinary⟩ := applies.pre_fits path effect rfl
    exact done_yields sound wf ctl held _ ordinary fits atFront

omit applies in
private theorem pre_below (use : Use) {k : ℕ} (total : Total h k) (light : weight m < k) :
    wp (use.pre h) (EndsBelow k m) m := by
  cases use with
  | reset | clear | shutdownTimeout => exact ⟨.done () .refl, fun _ => light⟩
  | failedConnect req err =>
    have ends := done_below total req (.notifyOn req err) (Nat.lt_succ_of_lt light)
    exact ⟨ends.toEnds, fun returned => lt_trans (ends.below returned) light⟩

/-- The post step of a shutdown's timer finds that shutdown at the front. -/
private theorem Applies.shutdown {req prev : Req} (same : use = .shutdownTimeout req prev)
    (next : use.extra <+: m.requests) :
    m.requests.head? = some req ∧ req.isConnect = false ∧ req.isRunInOrder = false := by
  subst same
  obtain ⟨rest, requests⟩ := next
  refine ⟨by rw [← requests]; rfl, ?_⟩
  cases req <;> first | exact ⟨rfl, rfl⟩ | cases applies.1

theorem Applies.post_post (sound : Sound h) (wf : Wf m) (ctl : Ctl m) (next : use.extra <+: m.requests) :
    wp (use.post h) (Post Own m) m := by
  cases use with
  | reset | failedConnect => exact resetHandle_spec m wf ctl
  | clear => exact clearHandle_spec m wf ctl
  | shutdownTimeout req prev => exact cancel_post sound req _ wf ctl (applies.shutdown rfl next).1

theorem Applies.post_yields (sound : Sound h) (wf : Wf m) (ctl : Ctl m) (held : 0 < m.locked)
    (next : use.extra <+: m.requests) : wp (use.post h) (Yields (Drained [] use.extra m) m) m := by
  cases use with
  | reset | clear | failedConnect => exact ⟨fun _ => .inl (zero_appends _ _), .done ()⟩
  | shutdownTimeout req prev =>
    obtain ⟨atFront, other, ordinary⟩ := applies.shutdown rfl next
    exact cancel_done other ordinary _ fun t f handled fits =>
      done_after sound wf ctl held ordinary atFront handled fits

omit applies in
private theorem post_ends (use : Use) {k : ℕ} (total : Total h k) : Tame k (use.post h) := by
  cases use with
  | reset | failedConnect => exact resetHandle_ends
  | clear => exact clearHandle_ends
  | shutdownTimeout req prev => exact fun s light => cancelMember_ends total req _ s (Nat.lt_succ_of_lt light)

end Steps

/-! ### The call under its lock -/

/-- The request that the post step completes is next when the requests up to the mark have left. -/
private theorem next_extra {notified completed rest : List Req} (effect : Effect notified completed s m)
    (requests : s.requests = completed ++ (use.extra ++ rest)) : use.extra <+: m.requests := by
  obtain ⟨new, waiting, _⟩ := effect.behind requests
  rw [waiting, List.append_assoc]
  exact List.prefix_append _ _

/-- What is known of the call up to the end of its lock. -/
structure Locked (use : Use) (s : State) (o : Outcome Bool) (t : State) : Prop where
  cleared : Queue.Cleared Own (s.beginCancel use.till) o t
  swept : o.Returned →
    Swept s.finalizedRequests (upTo use.till s.requests ++ use.extra) (s.beginCancel use.till) t
  reasons : Reasons (upTo use.till s.requests) (s.beginCancel use.till) o t

theorem Applies.locked (sharp : Sharp h) (applies : use.Applies s) (wf : Wf s) :
    wp (Queue.cancelLocked h (use.pre h) (use.post h) s.cancelGen) (Locked use s) (s.beginCancel use.till) := by
  obtain ⟨seg, rest, requests, segment, mark⟩ := applies.split wf
  have wf₀ := Queue.beginCancel_wf wf use.till
  have ctl₀ : Ctl (s.beginCancel use.till) := Queue.beginCancel_ctl applies.mark
  have held₀ : 0 < (s.beginCancel use.till).locked := Nat.succ_pos _
  have flushed : wp (Queue.flushFinalized h h.budget)
      (fun o m => o.Returned → Wf m → Ctl m → wp (use.pre h) (Post Own m) m) (s.beginCancel use.till) := by
    refine wp_mono (wp_and (Queue.flushFinalized_post sharp.toOk h.budget _ wf₀ ctl₀)
      (flushFinalized_rel sharp.toSound h.budget _ wf₀ ctl₀ held₀)) ?_
    rintro o m ⟨quiet, rel⟩ returned wf' ctl'
    exact applies.pre_post sharp.toSound wf' ctl' quiet.post.path (rel.back returned)
  have cleared := Queue.cancelPending_post sharp.toOk wf₀ ctl₀ held₀ flushed
  have pending := cancelPending_sweeps sharp wf₀ ctl₀ held₀ requests mark
    (fun m wf ctl path rel => applies.pre_post sharp.toSound wf ctl path rel)
    (fun m wf ctl held path effect => applies.pre_yields sharp.toSound wf ctl held path effect)
  have swept := cancelLocked_sweeps cleared pending fun value m reached effect =>
    applies.post_yields sharp.toSound (reached.wf sharp.own wf₀) reached.ctl (effect.locked ▸ held₀)
      (next_extra effect requests)
  rw [← segment] at swept
  refine ⟨Queue.cancelLocked_post sharp.toOk _ wf₀ ctl₀ held₀ flushed ?_, swept.1, swept.2⟩
  refine wp_mono (wp_and cleared pending) ?_
  rintro o m ⟨cleared, pending⟩ returned wf' ctl' gen
  rcases pending.back returned with effect | canceled
  · exact applies.post_post sharp.toSound wf' ctl' (next_extra effect requests)
  · exact absurd gen (Nat.ne_of_gt canceled.1)

end Use

/-! ### The call as a whole -/

theorem Swept.exact
    (swept : Swept s.finalizedRequests (upTo use.till s.requests ++ use.extra) (s.beginCancel use.till) t)
    {rest : List Req} (requests : s.requests = upTo use.till s.requests ++ use.extra ++ rest) :
    (Exact use s t.endCancel ∧ (∀ req ∈ upTo use.till s.requests, req.isRunInOrder = false) ∧
      lefts t.endCancel.trace = lefts s.trace) ∨ resets s.trace < resets t.endCancel.trace := by
  rcases swept with ⟨gen, effect⟩ | canceled
  · refine .inl ⟨⟨effect.dones, effect.notifies, ?_, ?_, ?_, rfl⟩,
      fun req member => effect.ordinary req (List.mem_append_left _ member), effect.lefts⟩
    · obtain ⟨new, waiting, pushed⟩ := effect.behind requests
      exact ⟨rest, new, requests, waiting, pushed⟩
    · obtain ⟨parked, finalized, within⟩ := effect.finalized
      have same : t.finalizedRequests = parked := List.append_cancel_left finalized
      exact same ▸ within
    · change t.locked - 1 = s.locked
      rw [show t.locked = s.locked + 1 from effect.locked, Nat.add_sub_cancel]
  · exact .inr canceled

/-- What `drain` does, unless a callback canceled, and why it may fail. -/
structure DrainSpec (use : Use) (s : State) (o : Outcome Bool) (t : State) : Prop where
  path : Path Own s t
  ready : o.Returned → Wf t ∧ Ctl t ∧ t.Fresh
  ended : o ≠ .halt .exhausted
  stopped : Act.stop ∉ s.owner.script → o ≠ .halt .stopped
  kept : o ≠ .halt .thrown
  returned : o.Returned → (Exact use s t ∧ (∀ req ∈ upTo use.till s.requests, req.isRunInOrder = false) ∧
    lefts t.trace = lefts s.trace) ∨ resets s.trace < resets t.trace
  reasons : Reasons (upTo use.till s.requests) s o t

private theorem drain_spec (sharp : Sharp h) (total : Total h (weight s + 1)) (applies : use.Applies s) (wf : Wf s) :
    wp (use.drain h) (DrainSpec use s) s := by
  have ends : wp (Queue.cancelLocked h (use.pre h) (use.post h) s.cancelGen)
      (EndsBelow (weight s + 1) (s.beginCancel use.till)) (s.beginCancel use.till) :=
    cancelLocked_below total _ (Nat.lt_succ_of_le (Nat.le_succ _))
      (fun m light => use.pre_below total (Nat.lt_succ_of_le light)) (use.post_ends total)
  obtain ⟨seg, rest, requests, segment, _⟩ := applies.split wf
  rw [← segment, ← List.append_assoc] at requests
  simp only [Use.drain, wp_bind, wp_modify, wp_get, next_done]
  refine wp_mono (wp_and (applies.locked sharp wf) ends) ?_
  rintro (kept | why) t ⟨locked, ends⟩
  · change DrainSpec use s (.done kept) t.endCancel
    have back := Queue.endCancel_post locked.cleared
    exact ⟨back.path, fun _ => ⟨back.wf sharp.own wf, back.ctl, locked.cleared.fresh trivial⟩, by simp,
      by simp, by simp,
      fun _ => (locked.swept trivial).exact requests, fun failed => by cases failed⟩
  · have lost (returned : (Outcome.halt why : Outcome Bool).Returned) : False :=
      locked.cleared.kept (congrArg Outcome.halt returned)
    have begun : Path Own s (s.beginCancel use.till) := .one (.control s _ _ _ _ _ le_rfl)
    exact ⟨begun.then (Nat.le_succ _) locked.cleared.post.path, fun returned => (lost returned).elim, ends.exhausted,
      ends.stopped, locked.cleared.kept, fun returned => (lost returned).elim, locked.reasons⟩

theorem DrainSpec.inside {o : Outcome Bool} (spec : DrainSpec use s o t) (returned : o.Returned)
    (pushing : PushesOnly use s t) : Exact use s t ∧ (∀ req ∈ upTo use.till s.requests, req.isRunInOrder = false) ∧
      lefts t.trace = lefts s.trace :=
  (spec.returned returned).resolve_right fun canceled => Nat.ne_of_lt canceled pushing.resets.symm

/-- Nothing is left that could stop the call. -/
theorem DrainSpec.done {o : Outcome Bool} (spec : DrainSpec use s o t) (awake : Act.stop ∉ s.owner.script)
    (pushing : PushesOnly use s t) (ordinary : ∀ req ∈ upTo use.till s.requests, req.isRunInOrder = false)
    (inside : lefts t.trace = lefts s.trace) : ∃ kept, o = .done kept := by
  rcases o with kept | why
  · exact ⟨kept, rfl⟩
  · exfalso
    cases why with
    | thrown => exact spec.kept rfl
    | stopped => exact spec.stopped awake rfl
    | exhausted => exact spec.ended rfl
    | aborted =>
      rcases spec.reasons rfl with ⟨req, member, runInOrder | again⟩ | left | canceled
      · simp [ordinary req member] at runInOrder
      · exact Nat.ne_of_lt again (pushing.fresh req member).symm
      · exact Nat.ne_of_lt left inside.symm
      · exact Nat.ne_of_lt canceled pushing.resets.symm

/-! ### After the lock -/

/-- The request is not waiting and has not left again since `base`, unless it was pushed since. -/
def Gone (req : Req) (base : List (Event Req Fn Note)) (s : State) : Prop :=
  ∃ new, s.trace = new ++ base ∧ (req ∈ pushes new ∨
    req ∉ s.requests ∧ ∀ requests, .done req requests ∈ new → requests.head? ≠ some req)

section Gone
variable {req : Req} {base : List (Event Req Fn Note)}

private theorem Gone.move (gone : Gone req base s) (new : List (Event Req Fn Note)) (trace : t.trace = new ++ s.trace)
    (kept : req ∈ pushes new ∨ (req ∉ s.requests →
      req ∉ t.requests ∧ ∀ requests, .done req requests ∈ new → requests.head? ≠ some req)) : Gone req base t := by
  obtain ⟨old, same, gone⟩ := gone
  refine ⟨new ++ old, by rw [trace, same, List.append_assoc], ?_⟩
  rw [pushes, List.filterMap_append, List.mem_append]
  rcases gone with again | ⟨absent, once⟩
  · exact .inl (.inr again)
  · refine kept.imp .inl fun kept => ⟨(kept absent).1, fun requests member => ?_⟩
    exact (List.mem_append.mp member).elim ((kept absent).2 requests) (once requests)

private theorem Move.gone (moved : Move s t) (gone : Gone req base s) : Gone req base t := by
  cases moved with
  | enqueue other =>
    refine gone.move [.push other] rfl ?_
    by_cases same : req = other
    · exact .inl (by simp [pushes, Event.pushed?, same])
    · exact .inr fun absent => ⟨by simpa [World.enqueue, same] using absent, by simp⟩
  | handle | arm | activate | deactivate | delayCancel => exact gone.move [] rfl (.inr fun absent => ⟨absent, by simp⟩)
  | _ =>
    exact gone.move [_] rfl (.inr fun absent => ⟨absent, by simp⟩)

private theorem Step.gone (step : Step Own s t) (gone : Gone req base s) : Gone req base t := by
  -- what leaves is at the front, so it is not the request
  have other {front : Req} (atFront : s.requests.head? = some front) (absent : req ∉ s.requests) :
      req ∉ s.requests.tail ∧ req ≠ front :=
    ⟨fun member => absent (List.mem_of_mem_tail member), fun same => absent (same ▸ List.mem_of_head? atFront)⟩
  cases step with
  | own moved => exact moved.gone gone
  | control | retry => exact gone.move [] rfl (.inr fun absent => ⟨absent, by simp⟩)
  | exec | flush | unpark | cancel | rest | skip => exact gone.move [_] rfl (.inr fun absent => ⟨absent, by simp⟩)
  | restart => exact gone.move [_, _] rfl (.inr fun absent => ⟨absent, by simp⟩)
  | refuse check different lost =>
    refine gone.move [.done check s.requests] rfl (.inr fun absent => ⟨absent, fun requests member => ?_⟩)
    cases List.mem_singleton.mp member
    exact different
  | finish front f atFront fits async =>
    refine gone.move [.finish front f s.finalizedRequests, .done front s.requests] rfl (.inr fun absent => ?_)
    exact ⟨(other atFront absent).1, by simp [(other atFront absent).2]⟩
  | park front f split atFront fits why =>
    refine gone.move [.done front s.requests] rfl (.inr fun absent => ?_)
    exact ⟨(other atFront absent).1, by simp [(other atFront absent).2]⟩

end Gone

/-- No request has been canceled since `base`. -/
def Spared (base : List (Event Req Fn Note)) (s : State) : Prop :=
  ∃ new, s.trace = new ++ base ∧ ∀ req, .cancel req ∉ new

private theorem Spared.later {base : List (Event Req Fn Note)} (spared : Spared base s) (new : List (Event Req Fn Note))
    (trace : t.trace = new ++ s.trace) (none : ∀ req, .cancel req ∉ new) : Spared base t := by
  obtain ⟨old, same, before⟩ := spared
  refine ⟨new ++ old, by rw [trace, same, List.append_assoc], fun req member => ?_⟩
  exact (List.mem_append.mp member).elim (none req) (before req)

/-- Nothing is canceled until `reset()` or `clear()` is called or a connect is completed. -/
def sparing (base : List (Event Req Fn Note)) : Watch where
  base
  exposes e := e = .own .resetCall ∨ ∃ req, e = .own (.connectEvent req)
  apart _ := True
  held := Spared base
  since held := held.imp fun _ same => same.1
  reset := .inl rfl
  connect _ _ := .inr ⟨_, rfl⟩
  member _ _ := trivial
  unlinked _ _ := trivial
  frame held trace _ _ _ := held.later [] trace (by simp)
  log {_ e} held quiet := held.later [e] rfl (by cases e <;> simp_all [Stream.Quiet])
  finish held _ := held.later [_] rfl (by simp)
  enqueue {_ req} held _ := held.later [.push req] rfl (by simp)
  pushed held _ := held.later [] rfl (by simp)
  retire held := held.later [] rfl (by simp)
  park held := held.later [] rfl (by simp)

/-- What the last `resume()` of the call leaves of what was done. -/
theorem emptied_of_resume (n : ℕ) (wf : Wf s) (ready : Wf t ∧ Ctl t ∧ t.Fresh) (path : Path Own s t)
    (exact' : Exact use s t) (pushing : PushesOnly use s (Queue.resume (members n) t).2) :
    Emptied use s t (Queue.resume (members n) t).2 := by
  have later : Path Own t (Queue.resume (members n) t).2 :=
    (Queue.resume_post (members_sound n).toOk ready.1 ready.2.1 fun _ => ready.2.2).path
  have safe : Safe (sparing t.trace) True (Queue.resume (members n) t).2 :=
    resume_safe (members_withholds _ n) (.inr ⟨trivial, [], rfl, by simp⟩)
  generalize (Queue.resume (members n) t).2 = u at later safe pushing
  obtain ⟨new, trace⟩ := path_older later
  have count (req : Req) (member : req ∈ upTo use.till s.requests) :
      (pushes t.trace).count req = (pushes s.trace).count req ∧ req ∉ pushes new := by
    have same := pushing.fresh req member
    have first := pushes_mono path req
    rw [← trace, pushes, List.filterMap_append, List.count_append, ← pushes, ← pushes] at same
    exact ⟨by omega, List.count_eq_zero.mp (by omega)⟩
  refine ⟨(path_older later).filterMap _, (path_older later).filterMap _, fun req member => ?_,
    fun still req member => ?_⟩
  · obtain ⟨rest, waiting, requests, queue, pushed⟩ := exact'.kept
    obtain ⟨same, absent⟩ := count req member
    have behind : req ∉ rest := by
      have unique := (List.nodup_append.mp wf.nodup).2.1
      rw [requests, List.append_assoc] at unique
      exact fun again =>
        (List.nodup_append.mp unique).2.2 req member req (List.mem_append_right _ again) rfl
    have fresh : req ∉ waiting := by
      rw [pushed, List.count_append, List.count_reverse] at same
      exact List.count_eq_zero.mp (by omega)
    have gone : Gone req t.trace t := ⟨[], rfl, .inr ⟨by simp [queue, behind, fresh], by simp⟩⟩
    obtain ⟨since, same, again | ⟨left, once⟩⟩ := later.invariant (fun _ _ step => Step.gone step) gone
    · rw [← trace] at same
      exact absurd (List.append_cancel_right same ▸ again) absent
    · exact ⟨left, by rwa [eventsSince_eq same]⟩
  · rw [eventsSince_eq trace.symm] at still member
    rcases safe with ⟨since, same, e, among, reset | ⟨other, connect⟩⟩ | ⟨_, since, same, none⟩
    · rw [← trace] at same
      obtain rfl : new = since := List.append_cancel_right same
      have called : resets s.trace < resets u.trace := by
        refine lt_of_le_of_lt (resets_mono (path_older path)) ?_
        rw [← trace, resets, List.countP_append]
        exact Nat.lt_add_of_pos_left (List.countP_pos_iff.mpr ⟨e, among, by simpa using reset⟩)
      exact Nat.ne_of_lt called pushing.resets.symm
    · rw [← trace] at same
      exact still other (connect ▸ List.append_cancel_right same ▸ among)
    · rw [← trace] at same
      exact none req (List.append_cancel_right same ▸ member)

/-- The call ends where its last `resume()` does. -/
theorem cancel_after {kept : Bool} (drained : use.drain h s = (.done kept, t)) :
    (use.cancel h s).2 = (Queue.resume h t).2 := by
  rw [cancel_eq_drain]
  simp only [bind, drained]
  rcases Queue.resume h t with ⟨_ | why, u⟩
  · cases kept <;> rfl
  · rfl

private theorem cancel_halted {why : Halt} (drained : use.drain h s = (.halt why, t)) : (use.cancel h s).2 = t := by
  rw [cancel_eq_drain]
  simp only [bind, drained]

theorem PushesOnly.earlier (pushing : PushesOnly use s u) (first : Path Own s t) (later : Path Own t u) :
    PushesOnly use s t where
  resets := le_antisymm (pushing.resets ▸ resets_mono (path_older later)) (resets_mono (path_older first))
  fresh req member := le_antisymm (pushing.fresh req member ▸ pushes_mono later req) (pushes_mono first req)

/-- With enough depth every cancel ends, of whichever member of the stream. It is exact, and is still so when
the call returns, as long as its callbacks do not cancel and push only other requests, if and only if no
run-in-order request is to be canceled and no exception leaves `on_establish`. -/
theorem cancel_exact_iff (c : Canceler) (n : ℕ) (enters : c.Enters s use m) (deep : weight m + 3 ≤ n) (wf : Wf m)
    (applies : use.Applies m) (awake : Act.stop ∉ m.owner.script)
    (pushing : PushesOnly use m (c.run (members n) s).2) :
    ((c.run (members n) s).1 ≠ .halt .exhausted ∧
      ∃ kept t, use.drain (members n) m = (.done kept, t) ∧ Exact use m t ∧
        Emptied use m t (c.run (members n) s).2) ↔
    (∀ req ∈ upTo use.till m.requests, req.isRunInOrder = false) ∧
      lefts (use.drain (members n) m).2.trace = lefts m.trace := by
  rw [enters.run_eq] at pushing ⊢
  have total := members_total (weight m + 1) n deep
  have ends : wp (use.cancel (members n)) (Ends m) m :=
    cancel_ends total use.till (Nat.lt_succ_of_le (Nat.le_succ _))
      (fun m light => use.pre_below total (Nat.lt_succ_of_le light)) (use.post_ends total)
  have spec : DrainSpec use m (use.drain (members n) m).1 (use.drain (members n) m).2 :=
    drain_spec (members_sharp n) total applies wf
  rcases drained : use.drain (members n) m with ⟨kept | why, t⟩
  · rw [drained] at spec
    rw [cancel_after drained] at pushing ⊢
    have ready := spec.ready trivial
    have later : Path Own t (Queue.resume (members n) t).2 :=
      (Queue.resume_post (members_sound n).toOk ready.1 ready.2.1 fun _ => ready.2.2).path
    have inside := spec.inside trivial (pushing.earlier spec.path later)
    refine ⟨fun _ => inside.2, fun _ => ⟨ends.exhausted, kept, t, rfl, inside.1, ?_⟩⟩
    exact emptied_of_resume n wf ready spec.path inside.1 pushing
  · rw [drained] at spec
    rw [cancel_halted drained] at pushing ⊢
    constructor
    · rintro ⟨_, kept, t, absurd, _⟩
      cases absurd
    · rintro ⟨ordinary, inside⟩
      obtain ⟨kept, absurd⟩ := spec.done awake pushing ordinary inside
      cases absurd

/-- A connect waits for the backend, another request is submitted, and the first callback will write. -/
def pendingConnect (op : Op) : State := (run [
  { depth := 20, task := .op (.connect 1 0) },
  { depth := 20, script := [.op (.write 3 [5]), .ret], task := .op op }] initial).2

theorem canceledWrite_exact : ∃ kept t,
    Use.drain (members 20) (.reset none) ((pendingConnect (.write 2 [5])).log (.own .resetCall)) = (.done kept, t) ∧
    Exact (.reset none) ((pendingConnect (.write 2 [5])).log (.own .resetCall)) t ∧
    Emptied (.reset none) ((pendingConnect (.write 2 [5])).log (.own .resetCall)) t
      (reset (members 20) (pendingConnect (.write 2 [5]))).2 :=
  ((cancel_exact_iff .reset 20 (.reset _) (by decide) ((run_wf _).log trivial) (fun _ none => by cases none) (by decide)
    ⟨by decide, by decide⟩).mpr ⟨by decide, by decide⟩).2

/-- A connect waits for the backend, and is canceled. Its callback pushes a connect and a write, and the backend fails
the connect when the queue goes on. -/
def failingRetry : State := (run [
  { depth := 20, task := .op (.connect 1 0) },
  { depth := 20, script := [.ret, .op (.connect 2 0), .op (.write 3 [5]), .ret], replies := [.sync (some .timedOut)],
    task := .op .readStop }] initial).2

/-- Nothing cancels the run-in-order request, and the assertion behind the member `cancel` fails. A connect that fails
while the queue goes on cancels a request that a callback has pushed. -/
theorem canceledCode_not_exact :
    PushesOnly (.reset none) ((pendingConnect .runInOrder).log (.own .resetCall))
      (reset (members 20) (pendingConnect .runInOrder)).2 ∧
    (reset (members 20) (pendingConnect .runInOrder)).1 = .halt .aborted ∧
    PushesOnly (.reset none) (failingRetry.log (.own .resetCall)) (reset (members 20) failingRetry).2 ∧
    (reset (members 20) failingRetry).1 = .done () ∧
    .write 3 [5] ∈ pushes (eventsSince failingRetry (reset (members 20) failingRetry).2) ∧
    .cancel (.write 3 [5]) ∈ eventsSince failingRetry (reset (members 20) failingRetry).2 :=
  ⟨⟨by decide, by decide⟩, by decide, ⟨by decide, by decide⟩, by decide, by decide, by decide⟩

end UniEvent.Stream
