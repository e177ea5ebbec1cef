import UniEvent.Proofs.StreamEffects

/-! # Every call of a stream is a path of its moves

The members of the request classes behave as calls of the queue do. On a busy queue user code has the
effect `Rel` and fails no assertion unless it calls `reset()` or `clear()`. Both are proved together by induction on the
depth of the members: the completion of a failed connect relies on what user code has done to the queue before it calls
`done`.
-/

namespace UniEvent.Stream

open Program Program.Exec

variable {s m t : State} {h : Members}

@[simp] theorem resets_cons (e : Event Req Fn Note) (before : List (Event Req Fn Note)) :
    resets (e :: before) = resets before + if e = .own .resetCall then 1 else 0 := by
  simp [resets, List.countP_cons]

/-- The members of a request, with the effect of user code on a busy queue. -/
structure Sound (h : Members) : Prop extends h.Ok Own where
  userRel : ∀ s, Wf s → Ctl s → Busy s → wp h.user (Yields (Rel [] s) s) s
  callRel : ∀ s f, Wf s → Ctl s → Busy s → wp (h.call f) (Yields (Rel [] s) s) s
  notifyRel : ∀ s req err, Wf s → Ctl s → Busy s → wp (h.notify req err) (Yields (Rel [] s) s) s

/-! ### Operations -/

/-- A note of the stream in the trace. -/
theorem note_post {n : Note} (ctl : Ctl s) (moved : Move s (s.log (.own n))) :
    Post Own s (.done () : Outcome Unit) (s.log (.own n)) :=
  ⟨.one (.own moved), fun _ => .log ctl (Event.plain_own n)⟩

theorem zero_post (ctl : Ctl s) (flags : Flags) (setup : Setup) : Post Own s (.done () : Outcome Unit)
    { s.log (.own (.zero s.requests)) with owner := { s.owner with flags, wqSize := 0, setup } } :=
  ⟨.one (.own (.zero s flags setup)), fun _ => .frame ctl rfl rfl rfl (s.log_started (Event.plain_own _))⟩

theorem zero_appends (flags : Flags) (setup : Setup) :
    Appends s { s.log (.own (.zero s.requests)) with owner := { s.owner with flags, wqSize := 0, setup } } :=
  .of (n := []) (List.append_nil _).symm rfl rfl rfl rfl rfl rfl (by simp) rfl rfl rfl

/-- On a busy queue `push` does not execute the request. -/
theorem push_rel (busy : Busy s) (req : Req) (owner : Handle) :
    wp (Queue.pushed h req) (Yields (Rel [] s) s) ({ s with owner }.enqueue req) := by
  simp only [Queue.pushed, wp_bind, wp_get, next_done, wp_when]
  refine ⟨?_, fun _ => .done () (.inl ?_)⟩
  · rintro ⟨single, free⟩
    rcases busy with held | some
    · exact absurd free (Nat.ne_of_gt held)
    · have empty : s.requests = [] := by
        simpa [World.enqueue, World.log, World.setAsync] using single
      exact (some empty).elim
  · have same : resets (.push req :: s.trace) = resets s.trace := by simp
    exact Appends.of (n := [req]) rfl rfl rfl rfl rfl rfl rfl same rfl rfl rfl

private theorem le_foldr_max (ids : List ℕ) : ∀ id ∈ ids, id ≤ ids.foldr max 0 := by
  induction ids with
  | nil => simp
  | cons first rest ih =>
    intro id member
    rcases List.mem_cons.mp member with rfl | later
    · exact Nat.le_max_left _ _
    · exact le_trans (ih id later) (Nat.le_max_right _ _)

/-- A new object is in neither chain. -/
theorem freshId_unlinked (s : State) {f : ℕ → Req} (named : ∀ n, (f n).id = n) : Unlinked s (f (freshId s)) := by
  have absent : f (freshId s) ∉ s.requests ++ s.finalizedRequests := by
    intro member
    have bound := le_foldr_max _ _ (List.mem_map_of_mem (f := Req.id) member)
    rw [named] at bound
    exact absurd bound (Nat.not_succ_le_self _)
  rw [List.mem_append, not_or] at absent
  exact absent

/-- `push` of an unlinked request, with what is written down about it. -/
theorem pushWith_post (ok : h.Ok Own) (wf : Wf s) (ctl : Ctl s) {req : Req} {f : Handle → Handle}
    (moved : Move s ({ s with owner := f s.owner }.enqueue req)) : wp (pushWith h req f) (Post Own s) s :=
  Queue.push_post ok wf ctl moved

/-- A request that counts nothing in `_wq_size`. -/
theorem enqueue_move {req : Req} (unlinked : Unlinked s req) (size : req.size = 0) : Move s (s.enqueue req) :=
  .enqueue s req s.owner unlinked (by simp [size]) rfl fun _ on => .inr on

theorem pushNew_post (ok : h.Ok Own) (wf : Wf s) (ctl : Ctl s) {f : ℕ → Req} (named : ∀ n, (f n).id = n)
    (size : ∀ n, (f n).size = 0) : wp (pushNew h f) (Post Own s) s :=
  Queue.push_post ok wf ctl (enqueue_move (freshId_unlinked s named) (size _))

/-- `reset()` and `clear()`. -/
theorem reset_post (ok : h.Ok Own) (wf : Wf s) (ctl : Ctl s) {fpost : Exec State Unit} (post : Queue.Spec Own fpost) :
    wp (do note .resetCall; Queue.cancel h (pure ()) fpost none) (Post Own s) s := by
  have noted := note_post ctl (.resetCall s)
  refine wp_modify_post noted ?_
  exact Queue.cancel_post ok (fun _ none => by cases none) (noted.wf ok.own wf) (fun _ _ ctl => Post.refl ctl)
    (fun _ wf ctl _ => post _ wf ctl)

/-- `reset()` and `clear()` start a new generation and interrupt a connect completion under way. -/
theorem reset_rel (ok : h.Ok Own) (wf : Wf s) (ctl : Ctl s) {fpost : Exec State Unit} (post : Queue.Spec Own fpost)
    (quiet : ∀ m, (fpost m).1 = .done ()) :
    wp (do note .resetCall; Queue.cancel h (pure ()) fpost none) (Yields (Rel [] s) s) s := by
  have noted := note_post ctl (.resetCall s)
  have wf' := noted.wf ok.own wf
  have grown : wp (Queue.cancel h (pure ()) fpost none)
      (fun o t => o.Returned → (s.log (.own .resetCall)).cancelGen < t.cancelGen) (s.log (.own .resetCall)) :=
    Queue.cancel_gen ok (fun _ _ => Move.gen) (fun _ none => by cases none) wf'
      (fun _ _ ctl => Post.refl ctl) post quiet
  have whole :
    wp (Queue.cancel h (pure ()) fpost none) (Post Own (s.log (.own .resetCall))) (s.log (.own .resetCall)) :=
    Queue.cancel_post ok (fun _ none => by cases none) wf' (fun _ _ ctl => Post.refl ctl)
      (fun _ wf ctl _ => post _ wf ctl)
  have older := path_older whole.path
  have called : resets s.trace < resets (s.log (.own .resetCall)).trace := by simp
  refine ⟨fun returned => .inr ⟨⟨grown returned, ?_⟩, fun opened clear => ?_⟩, Firm.of_reset called whole.path⟩
  · exact lt_of_lt_of_le called (resets_mono older)
  · exact opened (clear.earlier older).1

theorem resetHandle_spec : Queue.Spec Own _reset := fun _ _ ctl => zero_post ctl _ _

theorem clearHandle_spec : Queue.Spec Own _clear := fun _ _ ctl => zero_post ctl _ _

theorem noting_post {clear : Bool} {c : Exec State Unit} (call : wp c (Post Own s) s) :
    wp (noting clear c) (Post Own s) s := by
  refine wp_noting call fun o t post returned => ?_
  have last := (noted_handled clear s t).post (post.back returned).ctl ()
  exact ⟨post.path.then (Nat.le_of_eq (post.back returned).locked.symm) last.path,
    fun _ => (post.back returned).trans (last.back trivial)⟩

theorem noting_rel {clear : Bool} {c : Exec State Unit} (call : wp c (Yields (Rel [] s) s) s) :
    wp (noting clear c) (Yields (Rel [] s) s) s := by
  refine wp_noting call fun o t rel returned => ⟨fun _ => ?_, rel.firm⟩
  have handled := noted_handled clear s t
  have path : Path Own t (noted clear s t) := by
    obtain ⟨owner, same, size, connect, shutdown, _⟩ := handled
    rw [same]
    exact .one (.own (.handle t owner size connect shutdown))
  exact Rel.trans (rel.back returned) path fun _ => .inl handled.appends

section

variable (sound : Sound h) (wf : Wf s) (ctl : Ctl s)

include sound wf ctl

/-- User code that follows code which only touched the handle. -/
theorem Sound.user_after (handled : Handled s m) : wp h.user (Post Own s) m := by
  have first := handled.post ctl ()
  exact wp_mono (sound.user m (first.wf sound.own wf) first.ctl) fun _ _ post => first.trans post

theorem Sound.userRel_after (busy : Busy s) (handled : Handled s m) : wp h.user (Yields (Rel [] s) s) m := by
  have first := handled.post ctl ()
  have wf' := first.wf sound.own wf
  exact Rel.yields (.inl handled.appends) first.path (sound.user m wf' first.ctl).path
    fun _ => sound.userRel m wf' first.ctl (handled.appends.busy busy)

private theorem accept_post (filtered : Bool) : wp (accept h filtered) (Post Own s) s := by
  simp only [accept]
  refine wp_local (.setFlags _) fun _ m handled => ?_
  have first := handled.post ctl ()
  split
  · exact wp_mono (pushNew_post sound.toOk (first.wf sound.own wf) first.ctl (fun _ => rfl) fun _ => rfl)
      fun _ _ post => first.trans post
  · simp only [finalizeHandleConnection]
    refine wp_local (.setConnectResult _) fun _ t handled' => ?_
    exact sound.user_after wf ctl (handled.trans handled')

private theorem accept_rel (busy : Busy s) (filtered : Bool) : wp (accept h filtered) (Yields (Rel [] s) s) s := by
  simp only [accept]
  refine wp_local (.setFlags _) fun _ m handled => ?_
  split
  · have first := handled.post ctl ()
    have path :=
      (pushNew_post sound.toOk (f := .accept) (first.wf sound.own wf) first.ctl (fun _ => rfl) fun _ => rfl).path
    exact Rel.yields (.inl handled.appends) first.path path fun _ => push_rel (handled.appends.busy busy) _ m.owner
  · simp only [finalizeHandleConnection]
    refine wp_local (.setConnectResult _) fun _ t handled' => ?_
    exact sound.userRel_after wf ctl busy (handled.trans handled')

end

private theorem write_move {id : ℕ} {bufs : List ℕ} (unlinked : Unlinked s (.write id bufs)) :
    Move s ({ s with owner := { s.owner with wqSize := addBuffers bufs s.owner.wqSize } }.enqueue (.write id bufs)) :=
  .enqueue s _ _ unlinked (addBuffers_eq bufs _) rfl fun _ on => .inr on

private theorem shutdown_move {id timeout : ℕ} (unlinked : Unlinked s (.shutdown id timeout)) :
    Move s ({ s with
      owner := { s.owner with
        timedOut := Function.update s.owner.timedOut (.shutdown id timeout) false
        shutdownTimer :=
          Function.update s.owner.shutdownTimer (.shutdown id timeout) (decide (timeout ≠ 0)) } }.enqueue
      (.shutdown id timeout)) := by
  refine .enqueue s _ _ unlinked (UInt64.add_zero _).symm rfl fun other on => ?_
  by_cases same : other = .shutdown id timeout
  · exact .inl ⟨same, rfl⟩
  · exact .inr (by simpa [same] using on)

theorem runOp_post (sound : Sound h) (op : Op) : Queue.Spec Own (runOp h op) := by
  intro s wf ctl
  cases op with
  | connect id timeout =>
    simp only [runOp, wp_bind, wp_get, next_done, wp_when]
    refine ⟨fun unlinked => ?_, fun _ => Post.refl ctl⟩
    exact Queue.push_post sound.toOk wf ctl (enqueue_move unlinked rfl)
  | write id bufs =>
    simp only [runOp, wp_bind, wp_get, next_done, wp_when]
    exact ⟨fun unlinked => pushWith_post sound.toOk wf ctl (write_move unlinked), fun _ => Post.refl ctl⟩
  | shutdown id timeout =>
    simp only [runOp, wp_bind, wp_get, next_done, wp_when]
    exact ⟨fun unlinked => pushWith_post sound.toOk wf ctl (shutdown_move unlinked), fun _ => Post.refl ctl⟩
  | runInOrder =>
    simp only [runOp, runInOrder]
    rw [wp_get_bind]
    split
    · rename_i empty
      have noted := note_post ctl (.runNow s empty)
      exact wp_modify_post noted (sound.user _ (noted.wf sound.own wf) noted.ctl)
    · exact pushNew_post sound.toOk wf ctl (fun _ => rfl) fun _ => rfl
  | disconnect =>
    simp only [runOp, disconnect]
    rw [wp_get_bind]
    split
    · exact zero_post ctl _ _
    · split
      · exact noting_post (reset_post sound.toOk wf ctl resetHandle_spec)
      · exact pushNew_post sound.toOk wf ctl (fun _ => rfl) fun _ => rfl
  | reset => exact noting_post (reset_post sound.toOk wf ctl resetHandle_spec)
  | clear => exact noting_post (reset_post sound.toOk wf ctl clearHandle_spec)
  | readStart =>
    refine wp_local (.setFlags _) fun _ m handled => wp_local .readStart fun _ t handled' => ?_
    exact (handled.trans handled').post ctl ()
  | readStop => exact (Local.setFlags _ s).2.post ctl ()
  | opened => exact wp_local (.setConnectResult _) fun _ t handled => handled.post ctl ()
  | accept filtered => exact accept_post sound wf ctl filtered

private theorem runOp_rel (sound : Sound h) (op : Op) (wf : Wf s) (ctl : Ctl s) (busy : Busy s) :
    wp (runOp h op) (Yields (Rel [] s) s) s := by
  cases op with
  | connect id timeout =>
    simp only [runOp, wp_bind, wp_get, next_done, wp_when]
    exact ⟨fun _ => push_rel busy _ s.owner, fun _ => .done () (.inl .refl)⟩
  | write id bufs =>
    simp only [runOp, wp_bind, wp_get, next_done, wp_when]
    exact ⟨fun _ => push_rel busy _ _, fun _ => .done () (.inl .refl)⟩
  | shutdown id timeout =>
    simp only [runOp, wp_bind, wp_get, next_done, wp_when]
    exact ⟨fun _ => push_rel busy _ _, fun _ => .done () (.inl .refl)⟩
  | runInOrder =>
    simp only [runOp, runInOrder]
    rw [wp_get_bind]
    split
    · rename_i empty
      have noted := note_post ctl (.runNow s empty)
      have wf' := noted.wf sound.own wf
      have appends : Appends s (s.log (.own (.runNow s.finalizedRequests))) :=
        .of (n := []) (List.append_nil _).symm rfl rfl rfl rfl rfl rfl (by simp) rfl rfl rfl
      exact Rel.yields (.inl appends) noted.path (sound.user _ wf' noted.ctl).path
        fun _ => sound.userRel _ wf' noted.ctl (appends.busy busy)
    · exact push_rel busy _ s.owner
  | disconnect =>
    simp only [runOp, disconnect]
    rw [wp_get_bind]
    split
    · exact .done () (.inl (zero_appends _ _))
    · split
      · exact noting_rel (reset_rel sound.toOk wf ctl resetHandle_spec fun _ => rfl)
      · exact push_rel busy _ s.owner
  | reset => exact noting_rel (reset_rel sound.toOk wf ctl resetHandle_spec fun _ => rfl)
  | clear => exact noting_rel (reset_rel sound.toOk wf ctl clearHandle_spec fun _ => rfl)
  | readStart =>
    refine wp_local (.setFlags _) fun _ m handled => wp_local .readStart fun _ t handled' => ?_
    exact .done () (.inl (handled.trans handled').appends)
  | readStop => exact .done () (.inl (Local.setFlags _ s).2.appends)
  | opened => exact wp_local (.setConnectResult _) fun _ t handled => .done () (.inl handled.appends)
  | accept filtered => exact accept_rel sound wf ctl busy filtered

theorem user_post (sound : Sound h) : Queue.Spec Own (user h) := by
  intro s wf ctl
  simp only [user]
  refine wp_local .nextAct fun act m handled => ?_
  have first := handled.post ctl ()
  have wf' := first.wf sound.own wf
  refine wp_mono (Q := Post Own m) ?_ fun _ _ post => first.trans post
  cases act with
  | ret => exact Post.refl first.ctl
  | throw => exact Post.refl first.ctl
  | stop => exact .halted .refl (by decide)
  | op op =>
    refine wp_bind_post (runOp_post sound op m wf' first.ctl) fun _ t post => ?_
    exact sound.user t (post.wf sound.own wf') post.ctl

theorem user_rel (sound : Sound h) (wf : Wf s) (ctl : Ctl s) (busy : Busy s) : wp (user h) (Yields (Rel [] s) s) s := by
  simp only [user]
  refine wp_local .nextAct fun act m handled => ?_
  have first := handled.post ctl ()
  have wf' := first.wf sound.own wf
  have busy' := handled.appends.busy busy
  cases act with
  | ret => exact .done () (.inl handled.appends)
  | throw => exact ⟨fun _ => .inl handled.appends, fun failed => by cases failed⟩
  | stop => exact .lost nofun nofun
  | op op =>
    rw [wp_bind]
    refine wp_mono (wp_and (runOp_post sound op m wf' first.ctl) (runOp_rel sound op wf' first.ctl busy')) ?_
    rintro (_ | why) t ⟨post, rel⟩
    · have wf'' := post.wf sound.own wf'
      have reached : Rel [] s t := Rel.trans (.inl handled.appends) post.path fun _ => rel.back trivial
      exact reached.yields (first.trans post).path (sound.user t wf'' post.ctl).path
        fun appends => sound.userRel t wf'' post.ctl (Appends.busy appends busy)
    · exact ⟨fun returned => Rel.trans (.inl handled.appends) post.path fun _ => rel.back returned,
        .after first.path rel.firm.halt⟩

end UniEvent.Stream
