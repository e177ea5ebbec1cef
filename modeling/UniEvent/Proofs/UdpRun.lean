import UniEvent.Model.Udp
import UniEvent.Proofs.QueueCalls

/-! # Every run of a datagram handle is a path of moves

The members of a send request satisfy the guarantee of queue calls, by induction on the depth, so every run is a path
of the moves of its queue and of the handle. `done` is only called for the front.
-/

namespace UniEvent.Udp

open Program Program.Exec

open UniEvent.Stream (addBuffers subBuffers)

/-- The moves the handle makes itself. -/
inductive Move : State → State → Prop
  | send (s : State) (req : SendRequest) (absent : req ∉ s.requests) (unparked : req ∉ s.finalizedRequests) :
      Move s ({ s with owner := { s.owner with sqSize := addBuffers req.bufs s.owner.sqSize } }.enqueue req)
  | pass (s : State) (req : SendRequest) (atFront : s.requests.head? = some req) :
      Move s { s.log (.own (.passed req s.owner.sqSize)) with
        owner := { s.owner with sqSize := subBuffers req.bufs s.owner.sqSize } }
  /-- The scripts are read. -/
  | env (s : State) (owner : Handle) (size : owner.sqSize = s.owner.sqSize) : Move s { s with owner }
  | activate (s : State) (req : SendRequest) (atFront : s.requests.head? = some req) (started : s.Started req) :
      Move s { s with active := Function.update s.active req true }
  /-- The backend has reported. -/
  | deactivate (s : State) (req : SendRequest) : Move s { s with active := Function.update s.active req false }
  | delayCancel (s : State) (req : SendRequest) (err : Err) (atFront : s.requests.head? = some req)
      (started : s.Started req) : Move s (s.delay (.cancel req err))

/-- `done` is never called for a request that is not at the front. -/
def Own : Owner SendRequest Fn Note Handle where
  Moves := Move
  Fits _ req f := ∃ err, f = .notifyOnSend req err
  Lost _ _ := False

theorem Move.wf {s t : State} (moved : Move s t) (wf : Wf s) : Wf t := by
  cases moved with
  | send req absent unparked => exact (wf.setOwner _).enqueue absent unparked
  | pass req atFront => exact (wf.log (Event.plain_own _)).setOwner _
  | env owner size => exact wf.setOwner owner
  | activate req atFront started => exact wf.activate atFront started
  | deactivate req => exact wf.deactivate req
  | delayCancel req err atFront started => exact wf.delayCancel atFront started err

variable {s : State} {h : Members}

/-- A move that leaves the chain, the lock and the mark alone and executes nothing. -/
theorem move_post (ctl : Ctl s) {t : State} (moved : Move s t) (requests : t.requests = s.requests)
    (locked : t.locked = s.locked) (till : t.cancelTill = s.cancelTill)
    (started : ∀ req, t.Started req ↔ s.Started req) : Post Own s (.done () : Outcome Unit) t :=
  ⟨.one (.own moved), fun _ => .frame ctl requests locked till started⟩

theorem env_post (ctl : Ctl s) (owner : Handle) (size : owner.sqSize = s.owner.sqSize) :
    Post Own s (.done () : Outcome Unit) { s with owner } :=
  move_post ctl (.env s owner size) rfl rfl rfl fun _ => Iff.rfl

theorem nextAct_post (ctl : Ctl s) : wp nextAct (Post Own s) s :=
  (env_post ctl { s.owner with script := s.owner.script.tail } rfl).outcome id

theorem handleEvent_post (ok : h.Ok Own) (wf : Wf s) (ctl : Ctl s) {req : SendRequest} (err : Option Err)
    (atFront : s.requests.head? = some req) : wp (handleEvent h req err) (Post Own s) s :=
  Queue.done_post ok wf ctl (fun _ => ⟨err, rfl⟩) (.inl atFront)

theorem exec_post (ok : h.Ok Own) (wf : Wf s) (ctl : Ctl s) {req : SendRequest} (atFront : s.requests.head? = some req)
    (started : s.Started req) : wp (exec h req) (Post Own s) s := by
  have plain := s.log_started (Event.plain_own (.passed req s.owner.sqSize))
  have passed := move_post ctl (.pass s req atFront) rfl rfl rfl plain
  refine wp_modify_post passed ?_
  have read := env_post passed.ctl { s.owner with
    sqSize := subBuffers req.bufs s.owner.sqSize, replies := s.owner.replies.tail } rfl
  have wf' := read.wf ok.own (passed.wf ok.own wf)
  have started' := (plain req).mpr started
  simp only [nextReply, update, wp_bind, wp_get, wp_modify, next_done, wp_pure]
  refine wp_mono (Q := Post Own _) ?_ fun _ _ post => read.trans post
  split
  · exact move_post read.ctl (.activate _ req atFront started') rfl rfl rfl fun _ => Iff.rfl
  · exact move_post read.ctl (.delayCancel _ req _ atFront started') rfl rfl rfl fun _ => Iff.rfl
  · exact wp_ignoring_post (handleEvent_post ok wf' read.ctl _ atFront)

theorem reset_post (ok : h.Ok Own) : Queue.Spec Own (reset h) := by
  intro s wf ctl
  refine Queue.cancel_post ok ?_ wf (fun _ _ ctl => Post.refl ctl) (fun _ _ ctl _ => Post.refl ctl)
  exact fun _ absurd => nomatch absurd

theorem runOp_post (ok : h.Ok Own) (op : Op) : Queue.Spec Own (runOp h op) := by
  intro s wf ctl
  cases op with
  | send req =>
    simp only [runOp]
    rw [wp_get_bind, wp_when]
    refine ⟨?_, fun _ => Post.refl ctl⟩
    rintro ⟨absent, unparked⟩
    simp only [send, wp_bind, wp_modify, next_done]
    exact Queue.push_post ok wf ctl (.send s req absent unparked)
  | reset => exact reset_post ok s wf ctl
  | clear => exact reset_post ok s wf ctl

theorem user_post (ok : h.Ok Own) : Queue.Spec Own (user h) := by
  intro s wf ctl
  simp only [user]
  refine wp_bind_post (nextAct_post ctl) fun act t post => ?_
  have wf' := post.wf ok.own wf
  cases act with
  | op op =>
    refine wp_bind_post (runOp_post ok op t wf' post.ctl) fun _ u last => ?_
    exact ok.user u (last.wf ok.own wf') last.ctl
  | ret => exact Post.refl post.ctl
  | throw => exact Post.refl post.ctl
  | stop => exact .halted .refl (by decide)

/-- Members of any depth behave as calls of the queue do. -/
theorem members_ok (n : ℕ) : (members n).Ok Own := by
  induction n with
  | zero => exact .spent fun _ _ => Move.wf
  | succ n ih =>
    exact
      { own := fun _ _ => Move.wf
        exec := fun s req wf ctl atFront _ started => exec_post ih wf ctl atFront started
        cancel := fun s req err wf ctl atFront => handleEvent_post ih wf ctl (some err) atFront
        notify := fun s _ _ wf ctl => user_post ih s wf ctl
        call := fun s _ wf ctl => user_post ih s wf ctl
        user := fun s wf ctl => user_post ih s wf ctl }

theorem perform_post (ok : h.Ok Own) (task : Task) (idle : Idle s) : wp (perform h task) (Post Own s) s := by
  cases task with
  | op op => exact runOp_post ok op s idle.wf idle.ctl
  | complete req err =>
    simp only [perform]
    rw [wp_get_bind, wp_when]
    refine ⟨fun active => ?_, fun _ => Post.refl idle.ctl⟩
    have freed := move_post idle.ctl (.deactivate s req) rfl rfl rfl fun _ => Iff.rfl
    refine wp_modify_post freed (wp_ignoring_post ?_)
    exact handleEvent_post ok (freed.wf ok.own idle.wf) freed.ctl err (idle.wf.backend req active).1
  | fire => exact Queue.fire_post ok idle.wf idle.ctl idle.free
  | receive => exact ok.user s idle.wf idle.ctl

theorem turn_post (t : Turn) (idle : Idle s) : wp (turn t) (Post Own s) s := by
  have read := env_post idle.ctl { s.owner with script := t.script, replies := t.replies } rfl
  have ok := members_ok t.depth
  exact wp_modify_post read (perform_post ok t.task ⟨read.wf ok.own idle.wf, read.ctl, idle.free⟩)

/-- A run is a path, and leaves the queue idle unless its last turn never came back. -/
theorem run_post (ts : List Turn) : ∀ s : State, Idle s →
    wp (run ts) (fun o t => Path Own s t ∧ (o.Returned → Idle t)) s :=
  wp_run_post rfl (fun _ _ => rfl) (fun _ _ _ idle post => idle.back (fun _ _ => Move.wf) post)
    (fun t _ idle => turn_post t idle) ts

theorem initial_idle : Idle initial := World.initial_idle _

/-- An invariant of the moves, where `Wf` may be used, holds after every run. -/
theorem run_invariant {I : State → Prop} (kept : ∀ s t, Step Own s t → Wf s → I s → I t) (holds : I initial)
    (ts : List Turn) : I (run ts initial).2 := by
  have along : Wf (run ts initial).2 ∧ I (run ts initial).2 := by
    refine (run_post ts initial initial_idle).1.invariant (I := fun s => Wf s ∧ I s) ?_ ⟨initial_idle.wf, holds⟩
    rintro s t step ⟨wf, before⟩
    exact ⟨step.wf (fun _ _ => Move.wf) wf, kept s t step wf before⟩
  exact along.2

end UniEvent.Udp
