import UniEvent.Model.QueueRun
import UniEvent.Proofs.QueueCalls

/-! # Every run of a queue is a path of its moves

The members that `QueueRun` builds for a given depth satisfy the guarantee of queue calls, by
induction on the depth. Hence every turn of the loop, and every run, is a path; and whenever control
is back in the loop the queue is idle: unlocked, without a cancel mark, and well formed.
-/

namespace UniEvent

open Program Program.Exec

namespace QueueRun

/-- The owner appends requests, leaves the executed front with the backend and takes it back, records what
its code does before `done`, and reads its scripts. -/
inductive Move : State → State → Prop
  | enqueue (s : State) (req : ℕ) (absent : req ∉ s.requests) (unparked : req ∉ s.finalizedRequests) :
      Move s (s.enqueue req)
  | activate (s : State) (req : ℕ) (atFront : s.requests.head? = some req) (started : s.Started req) :
      Move s { s with active := Function.update s.active req true }
  | deactivate (s : State) (req : ℕ) : Move s { s with active := Function.update s.active req false }
  | note (s : State) (note : Note) : Move s (s.log (.own note))
  | env (s : State) (owner : Env) : Move s { s with owner }

/-- Nothing else is assumed of an arbitrary owner. -/
def Own : Owner ℕ Fn Note Env where
  Moves := Move
  Fits _ req f := f = .callback req
  Lost _ _ := True

theorem Move.wf {s t : State} (moved : Move s t) (wf : Wf s) : Wf t := by
  cases moved with
  | enqueue req absent unparked => exact wf.enqueue absent unparked
  | activate req atFront started => exact wf.activate atFront started
  | deactivate req => exact wf.deactivate req
  | note note => exact wf.log trivial
  | env owner => exact wf.setOwner owner

variable {s : State} {h : Members}

theorem env_post (ctl : Ctl s) (owner : Env) : Post Own s (.done () : Outcome Unit) { s with owner } :=
  ⟨.one (.own (.env s owner)), fun _ => .frame ctl rfl rfl rfl fun _ => Iff.rfl⟩

theorem nextAct_post (ctl : Ctl s) : wp nextAct (Post Own s) s :=
  (env_post ctl { s.owner with script := s.owner.script.tail }).outcome id

private theorem nextReply_post (ctl : Ctl s) : wp nextReply (Post Own s) s :=
  (env_post ctl { s.owner with replies := s.owner.replies.tail }).outcome id

theorem activate_post (ctl : Ctl s) {req : ℕ} (atFront : s.requests.head? = some req)
    (started : s.Started req) : Post Own s (.done () : Outcome Unit)
      { s with active := Function.update s.active req true } :=
  ⟨.one (.own (.activate s req atFront started)), fun _ => .frame ctl rfl rfl rfl fun _ => Iff.rfl⟩

theorem deactivate_post (ctl : Ctl s) (req : ℕ) : Post Own s (.done () : Outcome Unit)
    { s with active := Function.update s.active req false } :=
  ⟨.one (.own (.deactivate s req)), fun _ => .frame ctl rfl rfl rfl fun _ => Iff.rfl⟩

theorem note_post {o : Outcome Unit} (ctl : Ctl s) (note : Note) : Post Own s o (s.log (.own note)) :=
  ⟨.one (.own (.note s note)), fun _ => .log ctl trivial⟩

theorem noting_post {note : State → Note} {code : Exec State Unit} (post : wp code (Post Own s) s) :
    wp (noting note code) (Post Own s) s := by
  simp only [noting]
  rw [wp_bind]
  refine wp_attempt_post post (fun failed t post => ?_) fun why t final path => .halted path final
  rw [next_done, wp_when]
  exact ⟨fun _ => post.trans (note_post post.ctl (note t)), fun _ => post.outcome id⟩

section

variable (ok : h.Ok Own)

include ok

theorem handleEvent_ok (req : ℕ) (fails : Bool) : Queue.Spec Own (handleEvent h req fails) := by
  intro s wf ctl
  have freed := deactivate_post ctl req
  have wf' := freed.wf ok.own wf
  refine wp_modify_post (f := fun s => { s with active := Function.update s.active req false }) freed ?_
  refine wp_bind_post (noting_post (ok.user _ wf' freed.ctl)) fun _ t post => ?_
  have wf'' := post.wf ok.own wf'
  rw [wp_get_bind]
  split
  · refine Queue.cancel_post ok (by simp) wf'' (fun _ wf ctl => ?_) fun _ _ ctl _ => Post.refl ctl
    exact Queue.done_post ok wf ctl (fun _ => rfl) (.inr trivial)
  · have noted := note_post (o := .done ()) post.ctl (.handled t.requests
      (t.async req = true ∨ 0 < t.locked ∨ Queue.SPLIT_RECURSION < t.resumeRecursion))
    refine wp_modify_post (f := World.log _) noted ?_
    exact Queue.done_post ok (noted.wf ok.own wf'') noted.ctl (fun _ => rfl) (.inr trivial)

private theorem exec_ok (wf : Wf s) (ctl : Ctl s) {req : ℕ} (atFront : s.requests.head? = some req)
    (started : s.Started req) : wp (exec h req) (Post Own s) s := by
  have read := env_post ctl { s.owner with replies := s.owner.replies.tail }
  have wf' := read.wf ok.own wf
  simp only [exec, nextReply, wp_bind, wp_get, wp_modify, next_done, wp_pure]
  refine wp_mono (Q := Post Own _) ?_ fun _ _ post => read.trans post
  split
  · exact wp_ignoring_post (Queue.done_post ok wf' read.ctl (fun _ => rfl) (.inr trivial))
  · exact noting_post (Queue.done_post ok wf' read.ctl (fun _ => rfl) (.inr trivial))
  · exact wp_ignoring_post (handleEvent_ok ok req _ _ wf' read.ctl)
  · exact activate_post read.ctl atFront started
  · exact activate_post read.ctl atFront started

private theorem cancel_ok (req : ℕ) (err : Err) : Queue.Spec Own (cancel h req err) := by
  intro s wf ctl
  simp only [cancel]
  refine wp_bind_post (nextReply_post ctl) fun reply t post => ?_
  have wf' := post.wf ok.own wf
  cases reply with
  | ignore => exact Post.refl post.ctl
  | handled fails => exact handleEvent_ok ok req fails t wf' post.ctl
  | _ => exact Queue.done_post ok wf' post.ctl (fun _ => rfl) (.inr trivial)

theorem preStep_ok (pre : Bool) (front : Option ℕ) : Queue.Spec Own (preStep h pre front) := by
  intro s wf ctl
  simp only [preStep]
  split
  · exact Queue.done_post ok wf ctl (fun _ => rfl) (.inr trivial)
  · exact Post.refl ctl

theorem postStep_ok (post : PostStep) : Queue.Spec Own (postStep h post) := by
  intro s wf ctl
  cases post with
  | none => exact Post.refl ctl
  | user => exact ok.user s wf ctl
  | cancelFront =>
    simp only [postStep]
    rw [wp_get_bind]
    split
    · exact Post.refl ctl
    · rename_i req rest requests
      exact ok.cancel s req _ wf ctl (by rw [requests, List.head?_cons])

private theorem runOp_ok (op : Op) : Queue.Spec Own (runOp h op) := by
  intro s wf ctl
  cases op with
  | push req =>
    simp only [runOp]
    rw [wp_get_bind, wp_when]
    refine ⟨?_, fun _ => Post.refl ctl⟩
    rintro ⟨absent, unparked⟩
    simp only [Queue.push, wp_bind, wp_modify, next_done]
    exact Queue.push_post ok wf ctl (.enqueue s req absent unparked)
  | cancel pre post till =>
    simp only [runOp]
    rw [wp_get_bind]
    refine Queue.cancel_post ok ?_ wf (fun _ => preStep_ok ok pre _ _) (fun _ wf ctl _ => postStep_ok ok post _ wf ctl)
    intro req mark
    simpa using (Option.filter_eq_some_iff.mp mark).2

theorem user_ok : Queue.Spec Own (user h) := by
  intro s wf ctl
  simp only [user]
  refine wp_bind_post (nextAct_post ctl) fun act t post => ?_
  have wf' := post.wf ok.own wf
  cases act with
  | op op =>
    refine wp_bind_post (runOp_ok ok op t wf' post.ctl) fun _ u last => ?_
    exact ok.user u (last.wf ok.own wf') last.ctl
  | ret => exact Post.refl post.ctl
  | throw => exact Post.refl post.ctl
  | stop => exact .halted .refl (by decide)

end

/-- Members of any depth behave as calls of the queue do. -/
theorem members_ok (n : ℕ) : (members n).Ok Own := by
  induction n with
  | zero => exact .spent fun _ _ => Move.wf
  | succ n ih =>
    exact
      { own := fun _ _ => Move.wf
        exec := fun s req wf ctl atFront _ started => exec_ok ih wf ctl atFront started
        cancel := fun s req err wf ctl _ => cancel_ok ih req err s wf ctl
        notify := fun s _ _ wf ctl => user_ok ih s wf ctl
        call := fun s _ wf ctl => user_ok ih s wf ctl
        user := fun s wf ctl => user_ok ih s wf ctl }

private theorem perform_ok (ok : h.Ok Own) (task : Task) (idle : Idle s) : wp (perform h task) (Post Own s) s := by
  cases task with
  | op op => exact runOp_ok ok op s idle.wf idle.ctl
  | complete req =>
    simp only [perform]
    rw [wp_get_bind, wp_when]
    refine ⟨fun _ => ?_, fun _ => Post.refl idle.ctl⟩
    exact wp_ignoring_post (Queue.done_post ok idle.wf idle.ctl (fun _ => rfl) (.inr trivial))
  | report req fails =>
    simp only [perform]
    rw [wp_get_bind, wp_when]
    refine ⟨fun _ => ?_, fun _ => Post.refl idle.ctl⟩
    exact wp_ignoring_post (handleEvent_ok ok req fails s idle.wf idle.ctl)
  | fire => exact Queue.fire_post ok idle.wf idle.ctl idle.free

theorem turn_ok (t : Turn) (idle : Idle s) : wp (turn t) (Post Own s) s := by
  have read := env_post idle.ctl t.env
  have ok := members_ok t.depth
  exact wp_modify_post (f := fun s => { s with owner := t.env }) read
    (perform_ok ok t.task ⟨read.wf ok.own idle.wf, read.ctl, idle.free⟩)

/-- A run is a path, and leaves the queue idle unless its last turn never came back. -/
theorem run_ok (ts : List Turn) : ∀ s : State, Idle s →
    wp (run ts) (fun o t => Path Own s t ∧ (o.Returned → Idle t)) s :=
  wp_run_post rfl (fun _ _ => rfl) (fun _ _ _ idle post => idle.back (fun _ _ => Move.wf) post)
    (fun t _ idle => turn_ok t idle) ts

theorem initial_idle : Idle initial := World.initial_idle _

theorem run_path (ts : List Turn) : Path Own initial (run ts initial).2 :=
  (run_ok ts initial initial_idle).1

end QueueRun

end UniEvent
