import UniEvent.Proofs.StreamParked

/-! # A request while it is being submitted

The completion of a write or a shutdown inside `Queue::push` only parks the request. That of a connect runs code of the
user before the request is completed, and, if the connect has failed, afterwards. `Working` says what the code before
can do: the request stays at the front, unless `reset()` or `clear()` is called.
-/

namespace UniEvent.Stream

open Program Program.Exec

/-- After such an event a parked request may be called back. -/
def Exposes (req : Req) : Event Req Fn Note → Prop
  | .own .resetCall => True
  | .own (.connectEvent other) => other ≠ req
  | _ => False

instance (req : Req) : DecidablePred (Exposes req)
  | .own (.connectEvent other) => inferInstanceAs (Decidable (other ≠ req))
  | .own .resetCall => .isTrue trivial
  | .own (.connectLeft _) | .own (.runNow _) | .own (.passed _ _) | .own (.zero _) | .own .turn => .isFalse id
  | .push _ | .exec _ _ | .done _ _ | .finish _ _ _ | .notify _ _ | .fire _ _ | .cancel _ | .resume _ | .skip _ _ =>
    .isFalse id

/-- The request is parked, and since `base` its callback has not been invoked. -/
def parking (req : Req) (base : List (Event Req Fn Note)) : Watch where
  base
  exposes := Exposes req
  apart other := other ≠ req
  held := Withheld req base
  since held := held.silent.imp fun _ same => same.1
  reset := trivial
  connect held member := fun same => held.gone (same ▸ member)
  member held member same := held.gone (same ▸ member)
  unlinked held unlinked same := unlinked.2 (same ▸ held.parked)
  frame held trace async parked requests :=
    ⟨held.silent.later [] trace (by simp), async ▸ held.async, parked ▸ held.parked, requests ▸ held.gone⟩
  log {_ e} held quiet :=
    { held with silent := held.silent.later [e] rfl (by cases e <;> simp_all [Event.CallsBack, Quiet]) }
  finish held apart :=
    { held with silent := held.silent.later [_] rfl (by simpa [Event.CallsBack] using apart) }
  enqueue {_ other} held apart :=
    ⟨held.silent.later [.push other] rfl (by simp [Event.CallsBack]),
      (Function.update_of_ne apart.symm ..).trans held.async, held.parked,
      fun member => (List.mem_append.mp member).elim held.gone fun last => apart (List.mem_singleton.mp last).symm⟩
  pushed held apart :=
    ⟨held.silent.later [] rfl (by simp), (Function.update_of_ne apart.symm ..).trans held.async, held.parked, held.gone⟩
  retire held :=
    ⟨held.silent.later [] rfl (by simp), held.async, held.parked, fun member => held.gone (List.mem_of_mem_tail member)⟩
  park held :=
    ⟨held.silent.later [] rfl (by simp), held.async, List.mem_append_left _ held.parked, held.gone⟩

/-- The callback of the request has not been invoked, or something has happened that may do so. -/
def Fine (req : Req) (base : List (Event Req Fn Note)) (s : State) : Prop :=
  Exposed (parking req base) s ∨ Silent req base s

/-- Before the request is completed. -/
def Working (req : Req) (base : List (Event Req Fn Note)) (s : State) : Prop :=
  Exposed (parking req base) s ∨ AtWork req base s

variable {req : Req} {base : List (Event Req Fn Note)} {s t : State} {h : Members} {id timeout : ℕ}

/-! ### Code of the user before the request is completed -/

theorem Safe.fine {still : Prop} (safe : Safe (parking req base) still s) : Fine req base s :=
  safe.imp_right fun held => held.2.silent

theorem Working.fine (working : Working req base s) : Fine req base s := working.imp_right AtWork.silent

theorem Handled.atWork (handled : Handled s t) (work : AtWork req base s) : AtWork req base t := by
  obtain ⟨owner, rfl, _⟩ := handled
  exact work.frame rfl rfl rfl rfl

theorem Working.handled (working : Working req base s) (handled : Handled s t) : Working req base t := by
  rcases working with exposed | work
  · exact .inl (safe_false.mp ((safe_false.mpr exposed).handled handled))
  · exact .inr (handled.atWork work)

/-- Other requests only wait. -/
theorem push_working (work : AtWork req base s) {other : Req} (unlinked : Unlinked s other) (f : Handle → Handle) :
    Keeps (Working req base) (pushWith h other f) s := by
  obtain ⟨rest, requests, once⟩ := work.front
  have different : other ≠ req := fun same => unlinked.1 (by rw [same, requests]; exact List.mem_cons_self)
  have queued : (s.requests ++ [other]) = req :: (rest ++ [other]) := by rw [requests, List.cons_append]
  have waits : AtWork req base (World.enqueue other { s with owner := f s.owner }) := by
    refine ⟨work.silent.later [.push other] rfl (by simp [Event.CallsBack]), ?_, work.parked,
      rest ++ [other], queued, ?_⟩
    · exact (Function.update_of_ne different.symm ..).trans work.async
    · simp [once, different.symm]
  refine .modified (.get (.bind (.when (.inr waits) fun alone => ?_) fun _ t after => .modify ?_))
  · have single : (s.requests ++ [other]).length = 1 := alone.1
    rw [queued] at single
    simp at single
  · rcases after with exposed | work
    · exact .inl (exposed.later [] rfl)
    · refine .inr ⟨work.silent.later [] rfl (by simp), ?_, work.parked, work.front⟩
      exact (Function.update_of_ne different.symm ..).trans work.async

section Working
variable (withholds : Withholds (parking req base) h)
  (user : ∀ s, Working req base s → Keeps (Working req base) h.user s)
include withholds user

private theorem runOp_working (op : Op) (working : Working req base s) : Keeps (Working req base) (runOp h op) s := by
  rcases working with exposed | work
  · exact (runOp_safe withholds op (safe_false.mpr exposed)).mono fun _ after => .inl (safe_false.mp after)
  have busy : s.requests ≠ [] := by
    obtain ⟨rest, requests, _⟩ := work.front
    rw [requests]
    exact List.cons_ne_nil _ _
  have wiped (clear : Bool) {fpost : Exec State Unit}
      (post : ∀ t, Safe (parking req base) False t → Keeps (Safe (parking req base) False) fpost t) :
      Keeps (Working req base) (noting clear (do note .resetCall; Queue.cancel h (pure ()) fpost none)) s :=
    (noting_safe clear
      ((wipe_exposed withholds (work.silent.imp fun _ same => same.1) post).mono fun _ => safe_false.mpr)).mono
      fun _ after => .inl (safe_false.mp after)
  have touched {c : Exec State Unit} (inner : Local c) : Keeps (Working req base) c s :=
    wp_mono (inner s) fun _ _ done => .inr (done.2.atWork work)
  cases op with
  | connect name timeout => exact .get (.when (.inr work) fun unlinked => push_working work unlinked id)
  | write id bufs => exact .get (.when (.inr work) fun unlinked => push_working work unlinked _)
  | shutdown id timeout => exact .get (.when (.inr work) fun unlinked => push_working work unlinked _)
  | runInOrder =>
    refine .get ?_
    rw [if_neg busy]
    exact .get (push_working work (freshId_unlinked s fun _ => rfl) id)
  | disconnect =>
    refine .get ?_
    rw [if_neg busy]
    split
    · exact wiped false fun t safe => .modify (zero_safe safe _ _)
    · exact .get (push_working work (freshId_unlinked s fun _ => rfl) id)
  | reset => exact wiped false fun t safe => .modify (zero_safe safe _ _)
  | clear => exact wiped true fun t safe => .modify (zero_safe safe _ _)
  | readStart => exact touched (.bind (.setFlags _) fun _ => .bind .readStart fun _ => .pure ())
  | readStop => exact touched (.setFlags _)
  | opened => exact touched (.bind (.setConnectResult _) fun _ => .pure ())
  | accept filtered =>
    refine wp_local (Local.setFlags _) fun _ t handled => ?_
    split
    · exact Keeps.get (push_working (handled.atWork work) (freshId_unlinked t fun _ => rfl) id)
    · exact wp_local (Local.setConnectResult _) fun _ u last => user u (.inr (last.atWork (handled.atWork work)))

theorem user_working (working : Working req base s) : Keeps (Working req base) (Stream.user h) s := by
  refine wp_local Local.nextAct fun act t handled => ?_
  have after := working.handled handled
  cases act with
  | ret | throw | stop => exact after
  | op op => exact (runOp_working withholds user op after).bind fun _ t after => user t after

end Working

private theorem members_working (n : ℕ) : ∀ s, Working req base s → Keeps (Working req base) (members n).user s := by
  induction n with
  | zero => exact fun _ working => working
  | succ n ih => exact fun s working => user_working (members_withholds (parking req base) n) ih working

private theorem notify_working (n : ℕ) (other : Req) (err : Err) (working : Working req base s) :
    Keeps (Working req base) ((members n).notify other err) s := by
  cases n with
  | zero => exact working
  | succ n =>
    cases other with
    | connect | write | shutdown =>
      exact user_working (members_withholds (parking req base) n) (members_working n) working
    | _ => exact Keeps.pure working

/-! ### The submitting call -/

private theorem done_safe_of_working (n : ℕ) (working : Working req base s) (f : Fn) :
    Keeps (Safe (parking req base) True) (Queue.done (members n) req f) s := by
  rcases working with exposed | work
  · exact done_safe (members_withholds (parking req base) n) (.inl exposed) req f
  · exact (done_withheld work f).mono fun _ held => .inr ⟨trivial, held⟩

private theorem finalizeHandleConnect_fine (n : ℕ) (working : Working req base s) (err : Option Err) :
    Keeps (Fine req base) (finalizeHandleConnect (members n) err req) s := by
  refine wp_local (Local.setConnectResult _) fun startErr t handled => ?_
  refine wp_local (Local.stopConnectTimer req) fun _ u stopped => ?_
  have after : Working req base u := (working.handled handled).handled stopped
  refine Keeps.get ?_
  split
  · exact (done_safe_of_working n after _).mono fun _ => Safe.fine
  · have begun : Working req base (u.beginCancel none) := by
      rcases after with exposed | work
      · exact .inl (exposed.later [] rfl)
      · exact .inr (work.frame rfl rfl rfl rfl)
    refine cancel_keeps (members_withholds (parking req base) n) (I := Working req base)
      (fun _ s cur (held : Withheld req base s) =>
        { held with silent := held.silent.later [.cancel cur] rfl (by simp [Event.CallsBack]) })
      (flushFinalized_keeps ?_ (fun t cur => notify_working n cur _) _ _ begun) (fun _ => Working.fine)
      (fun t (safe : Safe (parking req base) True t) => safe.fine)
      (fun t working => done_safe_of_working n working _) fun t safe => .modify (zero_safe safe _ _)
    rintro t cur rest (exposed | work) parked
    · exact .inl (exposed.later [.notify cur .canceled] rfl)
    · have different : cur ≠ req := fun same => work.parked (by rw [parked, same]; exact List.mem_cons_self)
      refine .inr
        ⟨work.silent.later [.notify cur .canceled] rfl (by simpa [Event.CallsBack] using different), work.async,
        fun member => work.parked (List.mem_of_mem_tail member), work.front⟩

private theorem connectEvent_fine (n : ℕ) (work : AtWork (.connect id timeout) base s) (err : Option Err) :
    Keeps (Fine (.connect id timeout) base) (handleEvent (members n) (.connect id timeout) err) s := by
  refine .modified (wp_local (Local.when (.setFlags _)) fun _ t handled => ?_)
  have begun : Working (.connect id timeout) base t := .inr (handled.atWork (work.log (fun calls => calls)))
  refine Keeps.seq (I := Working (.connect id timeout) base) ?_ (fun _ => Working.fine) fun _ u after =>
    finalizeHandleConnect_fine n after err
  refine (user_working (members_withholds (parking _ base) n) (members_working n) begun).attempt.bind
    fun _ u after => ?_
  refine .when after fun _ => .modified (.halt ?_)
  rcases after with exposed | work
  · exact .inl (exposed.later [.own (.connectLeft (.connect id timeout))] rfl)
  · exact .inr (work.log fun calls => calls)

/-- The backend reports inside the call, or nothing happens to the request yet. -/
theorem submit_keeps {I : State → Prop} (work : AtWork req base s) (working : ∀ t, AtWork req base t → I t)
    (event : ∀ t err, AtWork req base t → Keeps I (handleEvent h req err) t) : Keeps I (submit h req) s := by
  refine wp_local Local.nextReply fun reply t handled => ?_
  have after := handled.atWork work
  cases reply with
  | pending => exact working _ (after.frame rfl rfl rfl rfl)
  | failed err => exact working _ (after.frame rfl rfl rfl rfl)
  | sync err => exact (event t err after).ignoring

theorem execConnect_fine (n : ℕ) (work : AtWork (.connect id timeout) base s) :
    Keeps (Fine (.connect id timeout) base) (exec (members n) (.connect id timeout)) s := by
  refine wp_local (Local.setFlags _) fun _ t handled => ?_
  have after := handled.atWork work
  refine Keeps.seq (I := AtWork (.connect id timeout) base) (.when after fun _ => .modify ?_)
    (fun _ work => .inr work.silent)
    fun _ u work => submit_keeps work (fun _ work => .inr work.silent) fun _ err work => connectEvent_fine n work err
  exact after.frame rfl rfl rfl rfl

theorem execWrite_silent {id : ℕ} {bufs : List ℕ} (work : AtWork (.write id bufs) base s) :
    Keeps (Silent (.write id bufs) base) (exec h (.write id bufs)) s := by
  refine requireWriteState_keeps (work.silent.later [] rfl (by simp))
    (.modified (submit_keeps ?_ (fun _ => AtWork.silent) ?_))
  · exact (work.log (e := .own (.passed (.write id bufs) s.owner.wqSize)) fun calls => calls).frame rfl rfl rfl rfl
  · exact fun t err work => wp_local (Local.when (.setFlags _)) fun _ u handled =>
      (done_withheld (handled.atWork work) _).mono fun _ => Withheld.silent

theorem execShutdown_silent (work : AtWork (.shutdown id timeout) base s) :
    Keeps (Silent (.shutdown id timeout) base) (exec h (.shutdown id timeout)) s := by
  have event (t : State) (err : Option Err) (work : AtWork (.shutdown id timeout) base t) :
      Keeps (Silent (.shutdown id timeout) base) (handleEvent h (.shutdown id timeout) err) t := by
    refine wp_local (Local.setShutdown _) fun _ u handled => ?_
    refine wp_local (Local.stopShutdownTimer _) fun _ v stopped => ?_
    exact (done_withheld (stopped.atWork (handled.atWork work)) _).mono fun _ => Withheld.silent
  refine requireWriteState_keeps (work.silent.later [] rfl (by simp)) ?_
  refine wp_local (Local.setFlags _) fun _ t shutting => wp_local Local.nextReply fun reply u handled => ?_
  have after := handled.atWork (shutting.atWork work)
  cases reply with
  | pending => exact after.silent.later [] rfl (by simp)
  | failed err => exact (event u (some err) after).ignoring
  | sync err => exact (event u err after).ignoring

end UniEvent.Stream
