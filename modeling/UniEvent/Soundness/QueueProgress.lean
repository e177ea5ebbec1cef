import UniEvent.Proofs.QueueLive
import UniEvent.Proofs.QueueRun

/-! # The queue never gets stuck

Control is back in the event loop after every turn that returns, by itself or with an exception. The
lock is then free. A waiting request whose turn has come is with the backend, or a split callback is
scheduled that will call `resume()`.

There are three ways to get stuck. A split callback whose closure throws skips the `resume()` behind
it; the queue goes on if at that moment it is empty, its front has been executed, or another split
callback is scheduled. Code of the user that is run before `done` may throw: the request then stays at
the front, with nobody to complete it. And it may push behind a request that completes inside its own
`push`: `done` only parks the callback there, and nothing executes what waits.
-/

namespace UniEvent

open Program Program.Exec

/-- A queue the loop need not worry about: unlocked, and its front request awaits completion or a
split callback that will resume the queue is scheduled. -/
def NotStuck {ρ φ η ε : Type} [DecidableEq ρ] (s : World ρ φ η ε) : Prop :=
  s.locked = 0 ∧
    ∀ req ∈ s.requests.head?, (s.Started req ∧ s.active req = true) ∨ s.splitPending = true

instance {ρ φ η ε : Type} [DecidableEq ρ] (s : World ρ φ η ε) : Decidable (NotStuck s) :=
  inferInstanceAs (Decidable (s.locked = 0 ∧ ∀ req ∈ s.requests.head?,
    (0 < execs s.trace req ∧ s.active req = true) ∨ s.splitPending = true))

instance {ρ φ η : Type} [DecidableEq ρ] (e : Event ρ φ η) (before : List (Event ρ φ η)) :
    Decidable (SkipGoingAt e before) := by
  apply Event.casesOn (motive := fun e => Decidable (SkipGoingAt e before)) <;> intros <;>
    unfold SkipGoingAt <;> infer_instance

theorem Going.notStuck {ρ φ η ε : Type} [DecidableEq ρ] {P : Event ρ φ η → List (Event ρ φ η) → Prop}
    {s : World ρ φ η ε} (going : Going P [] s) (right : Along P s.trace) (wf : Wf s) (free : s.locked = 0) :
    NotStuck s := by
  refine ⟨free, fun req atFront => ?_⟩
  rcases going right with held | split | awaited
  · exact absurd free (Nat.ne_of_gt held)
  · exact .inr split
  · have active : s.active req = true := (awaited req atFront).resolve_right List.not_mem_nil
    exact .inl ⟨(wf.backend req active).2, active⟩

/-- Inside `push` the callback of a request that completes at once is delayed, so nothing is thrown. -/
theorem Queue.done_quiet {ρ φ η ε : Type} [DecidableEq ρ] {h : Hooks ρ φ η ε} {s : World ρ φ η ε} {check : ρ}
    (f : φ) (delayed : s.async check = false) : wp (Queue.done h check f) (fun o _ => o ≠ .halt .thrown) s := by
  simp only [done, wp_bind, wp_modify, wp_get, next_done, wp_assert]
  refine ⟨fun _ => ?_, fun _ => by simp⟩
  have flag : ((s.log (.done check s.requests)).retire check).async check ≠ true := by
    change s.async check ≠ true
    simp [delayed]
  simp only [next_done, complete, wp_bind, wp_get, flag]
  split <;> simp

namespace QueueRun

/-- What keeps a queue going where an exception or a `push` might leave it stuck. An exception that leaves a
split callback finds the queue going. One that leaves code run before `done` finds its request gone from
the front. A request that is completed inside its own `push`, with the lock free, is the only one that waits. -/
def GoesOnAt : Event ℕ Fn Note → List (Event ℕ Fn Note) → Prop
  | .own (.left req requests), _ => requests.head? ≠ some req
  | .own (.handled requests resumes), _ => resumes = true ∨ requests.tail = []
  | e, before => SkipGoingAt e before

instance : ∀ (e : Event ℕ Fn Note) (before : List (Event ℕ Fn Note)), Decidable (GoesOnAt e before)
  | .own (.left req requests), _ => inferInstanceAs (Decidable (requests.head? ≠ some req))
  | .own (.handled requests resumes), _ => inferInstanceAs (Decidable (resumes = true ∨ requests.tail = []))
  | .own (.execLeft _), _ => .isTrue trivial
  | .skip requests split, before => inferInstanceAs (Decidable (SkipGoingAt (.skip requests split) before))
  | .push _, _ | .exec _ _, _ | .done _ _, _ | .finish _ _ _, _ | .fire _ _, _ | .notify _ _, _
  | .cancel _, _ | .resume _, _ => .isTrue trivial

abbrev GoesOn : List (Event ℕ Fn Note) → Prop := Along GoesOnAt

theorem GoesOnAt.skip (e : Event ℕ Fn Note) (before : List (Event ℕ Fn Note)) (goes : GoesOnAt e before) :
    SkipGoingAt e before := by
  cases e with
  | own note => trivial
  | _ => exact goes

variable {s : State} {h : Members} {F : List (Frame ℕ)} {req : ℕ}

theorem env_live (ctl : Ctl s) (tidy : Tidy GoesOnAt F s) (owner : Env) :
    Live Own GoesOnAt F (Going GoesOnAt F s) s (.done () : Outcome Unit) { s with owner } :=
  ⟨env_post ctl owner, fun _ => tidy.frame id rfl rfl rfl fun _ => Iff.rfl,
    fun _ going => going.frame id rfl rfl rfl rfl⟩

/-- Inside `handle_event` of the front the queue is going, for its `done` is still to come. -/
theorem handling_live (pushed : Pushed GoesOnAt F s) (atFront : s.requests.head? = some req) :
    Tidy GoesOnAt (.handle req :: F) s ∧ Going GoesOnAt (.handle req :: F) s := by
  refine ⟨⟨fun right other member => ?_, fun _ other first _ => ?_⟩, fun _ => .inr (.inr fun other first => ?_)⟩
  · exact (pushed right other member).imp_right fun executing => ⟨.tail _ executing.1, executing.2⟩
  · obtain rfl : other = req := Option.some.inj (first.symm.trans atFront)
    exact .inr (.head _)
  · obtain rfl : other = req := Option.some.inj (first.symm.trans atFront)
    exact .inr (.head _)

private theorem wp_noting_live {given : Prop} {note : State → Note} {code : Exec State Unit}
    {Q : Outcome Unit → State → Prop} (first : wp code (Live Own GoesOnAt F given s) s)
    (left : ∀ t, Live Own GoesOnAt F given s (.done ()) t → Q (.halt .thrown) (t.log (.own (note t))))
    (back : ∀ t, Live Own GoesOnAt F given s (.done ()) t → Q (.done ()) t)
    (halted : ∀ why t, why ≠ .thrown → Path Own s t → Q (.halt why) t) : wp (noting note code) Q s := by
  simp only [noting]
  rw [wp_bind]
  refine wp_attempt_live first (fun failed t live => ?_) halted
  rw [next_done, wp_when]
  exact ⟨fun _ => left t (live.outcome id), fun _ => back t (live.outcome id)⟩

private theorem noting_quiet {note : State → Note} {code : Exec State Unit}
    (quiet : wp code (fun o _ => o ≠ .halt .thrown) s) : wp (noting note code) (fun o _ => o ≠ .halt .thrown) s := by
  simp only [noting]
  rw [wp_bind, wp_attempt]
  refine wp_mono quiet ?_
  rintro (_ | why) t none
  · rintro ⟨⟩
  · cases why with
    | thrown => exact (none rfl).elim
    | _ => rintro ⟨⟩

private theorem note_live {o : Outcome Unit} (ctl : Ctl s) (tidy : Tidy GoesOnAt F s) (note : Note) :
    Live Own GoesOnAt F (Going GoesOnAt F s) s o (s.log (.own note)) :=
  ⟨note_post ctl note, fun _ => tidy.log trivial, fun _ going => going.frame And.right rfl rfl rfl rfl⟩

/-- When an exception leaves the code in front of `done`, and its request has left the queue. -/
theorem left_live (ctl : Ctl s) (tidy : Tidy GoesOnAt (.handle req :: F) s)
    (going : Going GoesOnAt (.handle req :: F) s) : Live Own GoesOnAt F True s (.halt .thrown : Outcome Unit)
      (s.log (.own (.left req s.requests))) := by
  have others {other : ℕ} (away : s.requests.head? ≠ some req) (first : s.requests.head? = some other)
      (awaited : s.active other = true ∨ .handle other ∈ Frame.handle req :: F) :
      s.active other = true ∨ .handle other ∈ F := by
    refine awaited.imp_right fun handled => (List.mem_cons.mp handled).resolve_left fun same => away ?_
    obtain rfl : other = req := Frame.handle.inj same
    exact first
  refine ⟨note_post ctl _, fun _ => ⟨fun right other member => ?_, fun right other first started => ?_⟩,
    fun _ _ right => ?_⟩
  · exact (tidy.async right.2 other member).imp_right fun executing => ⟨by simpa using executing.1, executing.2⟩
  · exact others right.1 first (tidy.awaited right.2 other first started)
  · exact (going right.2).imp_right (.imp_right fun front other first => others right.1 first (front other first))

section

variable (ok : h.Lively Own GoesOnAt)

include ok

/-- Under the lock of a cancel `done` closes a call that was open. -/
theorem doneHeld_live {G : List (Frame ℕ)} (req : ℕ) :
    Queue.LiveSpec Own GoesOnAt G F (Queue.done h req (.callback req)) := by
  intro s wf ctl tidy held
  have finished : wp (Queue.done h req (.callback req)) (Live Own GoesOnAt F True s) s :=
    Queue.done_live ok wf ctl (fun _ => rfl) (.inr trivial) tidy.async fun _ => .inr (.inl held)
  exact wp_mono finished fun _ _ live => live.weaken fun _ => trivial

/-- `handle_event` makes the queue going. -/
theorem handleEvent_lively (wf : Wf s) (ctl : Ctl s) (fails : Bool)
    (atFront : s.requests.head? = some req) (pushed : Pushed GoesOnAt F s) :
    wp (handleEvent h req fails) (Live Own GoesOnAt F True s) s := by
  have freed := deactivate_post ctl req
  have wf₁ := freed.wf ok.own wf
  obtain ⟨tidy, going⟩ := handling_live (s := { s with active := Function.update s.active req false }) pushed atFront
  simp only [handleEvent]
  rw [wp_modify_bind]
  refine wp_mono (Q := Live Own GoesOnAt F True _) ?_ fun _ _ live => Live.resumed freed live
  rw [wp_bind]
  refine wp_noting_live (ok.liveUser _ _ wf₁ freed.ctl tidy) (fun t live => ?_) (fun t live => ?_)
    fun why t final path => .halted path final
  · exact Live.resumed live.toPost (left_live live.ctl (live.tidy trivial) (live.going trivial going))
  · have wf₂ := live.wf ok.own wf₁
    have tidy' := live.tidy trivial
    rw [next_done, wp_get_bind]
    refine wp_mono (Q := Live Own GoesOnAt F True t) ?_ fun _ _ last => Live.resumed live.toPost last
    split
    · have post : Queue.LiveSpec Own GoesOnAt F F (pure ()) := fun m _ ctl tidy _ => .refl ctl tidy
      refine Queue.cancel_live ok (fun m wf ctl => ?_) (fun m _ ctl => ?_) (doneHeld_live ok req) post
        (by simp) wf₂ tidy'
      · exact Queue.done_post ok.toOk wf ctl (fun _ => rfl) (.inr trivial)
      · exact Post.refl ctl
    · let note : Note := .handled t.requests
        (t.async req = true ∨ 0 < t.locked ∨ Queue.SPLIT_RECURSION < t.resumeRecursion)
      have noted := note_post (o := .done ()) live.ctl note
      rw [wp_modify_bind]
      refine wp_mono (Queue.done_live (G := F) ok (noted.wf ok.own wf₂) noted.ctl (fun _ => rfl) (.inr trivial)
        (tidy'.log (e := .own note) trivial).async fun right => ?_) fun _ _ last => Live.resumed noted last
      rcases right.1 with resumes | last
      · exact (of_decide_eq_true resumes).imp_right (.imp_right .inl)
      · exact .inr (.inr (.inr last))

private theorem exec_lively (wf : Wf s) (ctl : Ctl s)
    (atFront : s.requests.head? = some req) (started : s.Started req) (pushed : Pushed GoesOnAt F s)
    (alone : Along GoesOnAt s.trace → s.async req = true ∨ s.requests.tail = []) :
    wp (exec h req) (fun o t => Live Own GoesOnAt F True s o t ∧ (s.async req = false → o ≠ .halt .thrown)) s := by
  have read := env_post ctl { s.owner with replies := s.owner.replies.tail }
  have wf' := read.wf ok.own wf
  have finished := Queue.done_live (G := F) ok wf' read.ctl (f := .callback req) (fun _ => rfl) (.inr trivial) pushed
    fun right => (alone right).imp_right fun last => .inr (.inr last)
  have answered {o : Outcome Unit} {t : State} (live : Live Own GoesOnAt F True _ o t) :
      Live Own GoesOnAt F True s o t := Live.resumed read live
  have awaited {other : ℕ} (first : s.requests.head? = some other) :
      Function.update s.active req true other = true := by
    obtain rfl : other = req := Option.some.inj (first.symm.trans atFront)
    exact Function.update_self ..
  have pending : Live Own GoesOnAt F True s (.done () : Outcome Unit) { s with
      owner := { s.owner with replies := s.owner.replies.tail }
      active := Function.update s.active req true } :=
    ⟨read.trans (activate_post read.ctl atFront started), fun _ => ⟨pushed, fun _ _ first _ => .inl (awaited first)⟩,
      fun _ _ _ => .inr (.inr fun _ first => .inl (awaited first))⟩
  simp only [exec, nextReply, wp_bind, wp_get, wp_modify, next_done, wp_pure]
  split
  · exact ⟨answered (wp_ignoring_live finished), fun _ => wp_ignoring_quiet _ _⟩
  · refine ⟨wp_noting_live finished (fun t live => ?_) (fun t live => answered live)
      fun why t final path => answered (.halted path final), fun delayed => noting_quiet (Queue.done_quiet _ delayed)⟩
    exact answered (live.trans (note_live live.ctl (live.tidy trivial) _))
  · refine ⟨answered (wp_ignoring_live ?_), fun _ => wp_ignoring_quiet _ _⟩
    exact handleEvent_lively ok wf' read.ctl _ atFront pushed
  · exact ⟨pending, fun _ => by simp [Exec.modify]⟩
  · exact ⟨pending, fun _ => by simp [Exec.modify]⟩

private theorem cancel_lively (wf : Wf s) (ctl : Ctl s) (tidy : Tidy GoesOnAt F s)
    (err : Err) (atFront : s.requests.head? = some req) (held : 0 < s.locked ∨ F = []) :
    wp (cancel h req err) (Live Own GoesOnAt F (Going GoesOnAt F s) s) s := by
  have read := env_live ctl tidy { s.owner with replies := s.owner.replies.tail }
  have wf' := read.wf ok.own wf
  -- Where nothing is locked the loop retries a `cancel`, and every request has been pushed.
  have alone (right : Along GoesOnAt s.trace) : s.async req = true ∨ 0 < s.locked := by
    refine held.symm.imp_left ?_
    rintro rfl
    exact (tidy.async right req (List.mem_of_mem_head? atFront)).resolve_right fun executing => by cases executing.1
  have finished := Queue.done_live (G := F) ok wf' read.ctl (f := .callback req) (fun _ => rfl) (.inr trivial)
    (read.tidy trivial).async fun right => (alone right).imp_right .inl
  simp only [cancel, nextReply, wp_bind, wp_get, wp_modify, next_done, wp_pure]
  split
  · exact read
  · refine Live.resumed read.toPost ?_
    exact handleEvent_lively ok wf' read.ctl _ atFront (read.tidy trivial).async
  · exact Live.resumed read.toPost finished
  · exact Live.resumed read.toPost finished
  · exact Live.resumed read.toPost finished

private theorem preStep_lively (pre : Bool) (front : Option ℕ) :
    Queue.LiveSpec Own GoesOnAt F F (preStep h pre front) := by
  intro s wf ctl tidy held
  simp only [preStep]
  split
  · exact doneHeld_live ok _ s wf ctl tidy held
  · exact .refl ctl tidy

private theorem postStep_lively (post : PostStep) : Queue.LiveSpec Own GoesOnAt F F (postStep h post) := by
  intro s wf ctl tidy held
  cases post with
  | none => exact .refl ctl tidy
  | user => exact ok.liveUser s F wf ctl tidy
  | cancelFront =>
    simp only [postStep]
    rw [wp_get_bind]
    split
    · exact .refl ctl tidy
    · rename_i req rest requests
      exact ok.liveCancel s req _ F wf ctl tidy (by rw [requests, List.head?_cons]) (.inl held)

private theorem runOp_lively (op : Op) (wf : Wf s) (ctl : Ctl s)
    (tidy : Tidy GoesOnAt F s) : wp (runOp h op) (Live Own GoesOnAt F (Going GoesOnAt F s) s) s := by
  cases op with
  | push req =>
    simp only [runOp]
    rw [wp_get_bind, wp_when]
    refine ⟨?_, fun _ => .refl ctl tidy⟩
    rintro ⟨absent, unparked⟩
    exact Queue.push_live ok wf ctl tidy (.enqueue s req absent unparked)
  | cancel pre post till =>
    simp only [runOp]
    rw [wp_get_bind]
    have member : ∀ req, (till.filter fun req => decide (req ∈ s.requests)) = some req → req ∈ s.requests := by
      intro req mark
      simpa using (Option.filter_eq_some_iff.mp mark).2
    refine wp_mono (Queue.cancel_live ok (preStep_ok ok.toOk pre _) (postStep_ok ok.toOk post)
      (preStep_lively ok pre _) (postStep_lively ok post) member wf tidy) ?_
    exact fun _ _ live => live.weaken fun _ => trivial

theorem user_lively (wf : Wf s) (ctl : Ctl s) (tidy : Tidy GoesOnAt F s) :
    wp (user h) (Live Own GoesOnAt F (Going GoesOnAt F s) s) s := by
  have read := env_live ctl tidy { s.owner with script := s.owner.script.tail }
  have wf' := read.wf ok.own wf
  simp only [user, nextAct]
  rw [wp_bind]
  simp only [wp_bind, wp_get, wp_modify, next_done, wp_pure]
  refine wp_mono (Q := Live Own GoesOnAt F (Going GoesOnAt F _) _) ?_ fun _ _ live => read.trans live
  split
  · exact .refl read.ctl (read.tidy trivial)
  · exact .refl read.ctl (read.tidy trivial)
  · exact .halted .refl (by decide)
  · refine wp_bind_live (runOp_lively ok _ wf' read.ctl (read.tidy trivial)) fun _ u last => ?_
    exact ok.liveUser u F (last.wf ok.own wf') last.ctl (last.tidy trivial)

end

private theorem members_lively (n : ℕ) : (members n).Lively Own GoesOnAt := by
  induction n with
  | zero => exact .spent fun _ _ => Move.wf
  | succ n ih =>
    exact
      { toOk := members_ok (n + 1)
        liveExec := fun s req F wf ctl atFront _ started pushed alone =>
          exec_lively ih wf ctl atFront started pushed alone
        liveCancel := fun s req err F wf ctl tidy atFront held => cancel_lively ih wf ctl tidy err atFront held
        liveNotify := fun s _ _ F wf ctl tidy => user_lively ih wf ctl tidy
        liveCall := fun s _ F wf ctl tidy => user_lively ih wf ctl tidy
        liveUser := fun s F wf ctl tidy => user_lively ih wf ctl tidy }

/-- One turn of the loop keeps the queue going. -/
theorem turn_live (t : Turn) (idle : Idle s) (tidy : Tidy GoesOnAt [] s) (going : Going GoesOnAt [] s) :
    wp (turn t) (fun o t => o.Returned → Tidy GoesOnAt [] t ∧ Going GoesOnAt [] t) s := by
  have ok := members_lively t.depth
  have read := env_live idle.ctl tidy t.env
  have wf := read.wf ok.own idle.wf
  have tidy' := read.tidy trivial
  have going' := read.going trivial going
  have settled {given : Prop} {c : Exec State Unit} {m : State} (live : wp c (Live Own GoesOnAt [] given m) m)
      (held : given) : wp c (fun o t => o.Returned → Tidy GoesOnAt [] t ∧ Going GoesOnAt [] t) m :=
    fun returned => ⟨live.tidy returned, live.going returned held⟩
  simp only [turn, wp_bind, wp_modify, next_done]
  cases task : t.task with
  | op op => exact settled (runOp_lively ok op wf read.ctl tidy') going'
  | complete req =>
    simp only [perform]
    rw [wp_get_bind, wp_when]
    refine ⟨fun active => settled (wp_ignoring_live ?_) trivial, fun _ _ => ⟨tidy', going'⟩⟩
    refine Queue.done_live ok wf read.ctl (fun _ => rfl) (.inr trivial) tidy'.async fun right => .inl ?_
    have member : req ∈ s.requests := List.mem_of_mem_head? (idle.wf.backend req active).1
    exact (tidy.async right req member).resolve_right fun executing => by cases executing.1
  | report req fails =>
    simp only [perform]
    rw [wp_get_bind, wp_when]
    refine ⟨fun active => settled (wp_ignoring_live ?_) trivial, fun _ _ => ⟨tidy', going'⟩⟩
    exact handleEvent_lively ok wf read.ctl fails (idle.wf.backend req active).1 tidy'.async
  | fire => exact Queue.fire_live GoesOnAt.skip ok wf read.ctl tidy' idle.free going'

private theorem run_live (ts : List Turn) : ∀ s : State, Idle s → Tidy GoesOnAt [] s → Going GoesOnAt [] s →
    wp (run ts) (fun o t => o.Returned → Going GoesOnAt [] t) s := by
  induction ts with
  | nil => exact fun s _ _ going _ => going
  | cons t ts ih =>
    intro s idle tidy going
    have live : wp (ignoring (turn t))
        (fun o m => Post Own s o m ∧ (o.Returned → Tidy GoesOnAt [] m ∧ Going GoesOnAt [] m)) s :=
      ⟨wp_ignoring_post (turn_ok t idle), wp_ignoring (turn_live t idle tidy going)⟩
    simp only [run, wp_bind]
    refine wp_mono live ?_
    rintro (_ | why) m ⟨post, settled⟩
    · exact ih m (idle.back (fun _ _ => Move.wf) post trivial) (settled trivial).1 (settled trivial).2
    · exact fun returned => (settled returned).2

private theorem initial_tidy : Tidy GoesOnAt [] initial := by
  refine ⟨?_, ?_⟩ <;> simp [Pushed, initial, World.initial]

/-- Whenever control is back in the loop the queue is not stuck, provided that every exception that leaves a
split callback or the code before a `done` finds the queue going, and that nothing was pushed behind a request
that completes inside its own `push`. -/
theorem run_not_stuck (ts : List Turn) (returned : (run ts initial).1.Returned)
    (goes : GoesOn (run ts initial).2.trace) : NotStuck (run ts initial).2 := by
  have idle := (run_ok ts initial initial_idle).2 returned
  have going := run_live ts initial initial_idle initial_tidy (going_of_empty rfl) returned
  exact going.notStuck goes idle.wf idle.free

/-- A callback that throws in front of a waiting request: the guard of `done` executes the next one. -/
def throwingCallback : List Turn :=
  [⟨5, {}, .op (.push 0)⟩, ⟨5, {}, .op (.push 1)⟩, ⟨5, { script := [.throw] }, .complete 0⟩]

theorem throwingCallback_not_stuck :
    (run throwingCallback initial).2.requests = [1] ∧ NotStuck (run throwingCallback initial).2 :=
  ⟨by decide, run_not_stuck throwingCallback (by decide) (by decide)⟩

/-- The callback of request 301 is split off while request 302 waits, and throws. -/
def throwingSplit : List Turn :=
  [⟨5, {}, .op (.push 0)⟩,
   ⟨2000, { script := .op (.push 1) :: (List.range 301).flatMap fun i => [.op (.push (i + 2)), .ret]
            replies := List.replicate 301 .sync }, .complete 0⟩,
   ⟨10, { script := [.throw] }, .fire⟩]

/-- The listener of a connect throws when the backend reports to it. -/
def throwingListener : List Turn :=
  [⟨5, {}, .op (.push 0)⟩, ⟨5, { script := [.throw] }, .report 0 false⟩]

/-- A connect is completed inside its `push`, and its listener pushes a write. -/
def pushingListener : List Turn :=
  [⟨5, { script := [.op (.push 1)], replies := [.handled false] }, .op (.push 0)⟩, ⟨5, {}, .fire⟩]

/-- The write waits at the front for ever, and the connect is executed but nobody completes it. -/
theorem throwingSplit_stuck :
    ((run throwingSplit initial).1.Returned ∧ ¬ NotStuck (run throwingSplit initial).2) ∧
      ((run throwingListener initial).1.Returned ∧ ¬ NotStuck (run throwingListener initial).2) ∧
      (run pushingListener initial).1.Returned ∧ (run pushingListener initial).2.requests = [1] ∧
        ¬ NotStuck (run pushingListener initial).2 := by
  decide +kernel

end QueueRun

end UniEvent
