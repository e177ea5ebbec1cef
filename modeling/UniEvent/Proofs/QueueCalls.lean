import UniEvent.Proofs.QueueStep

/-! # What a call of the queue guarantees

`Post Own s o t` says of a call that it went from `s` to `t` along moves of `Step Own`, whatever its
outcome, and, if control came back to the caller, that the lock is as it was and that code which ran
under a lock executed nothing. The members of a request are assumed to satisfy this (`Hooks.Ok`);
the functions of the queue then do too. An owner ties the knot by induction on the depth of its hooks.
-/

namespace UniEvent

open Program Program.Exec

variable {ρ φ η ε α β : Type} [DecidableEq ρ] {o : Outcome α} {f : β → Exec (World ρ φ η ε) α}
  {s t : World ρ φ η ε} {m : Exec (World ρ φ η ε) Unit} {Own : Owner ρ φ η ε} {why : Halt} {value : β}

/-- The cancel mark names a waiting request, is set only under a lock, and a lock without a mark is
held only while no waiting request has been executed. -/
structure Ctl (s : World ρ φ η ε) : Prop where
  till : ∀ req, s.cancelTill = some req → req ∈ s.requests
  idle : s.locked = 0 → s.cancelTill = none
  held : 0 < s.locked → s.cancelTill = none → s.Fresh

/-- What holds when a call from `s` is back in `t`. -/
structure Back (s t : World ρ φ η ε) : Prop where
  ctl : Ctl t
  locked : t.locked = s.locked
  till : s.cancelTill = none → t.cancelTill = none
  calm : 0 < s.locked → ∀ req ∈ t.requests, t.Started req → req ∈ s.requests ∧ s.Started req

theorem Back.refl {s : World ρ φ η ε} (ctl : Ctl s) : Back s s :=
  ⟨ctl, rfl, id, fun _ _ member started => ⟨member, started⟩⟩

theorem Back.trans {s m t : World ρ φ η ε} (first : Back s m) (second : Back m t) : Back s t where
  ctl := second.ctl
  locked := second.locked.trans first.locked
  till none := second.till (first.till none)
  calm held req member started := by
    obtain ⟨member, started⟩ := second.calm (first.locked ▸ held) req member started
    exact first.calm held req member started

section

variable (ctl : Ctl s) (requests : t.requests = s.requests) (locked : t.locked = s.locked)
  (till : t.cancelTill = s.cancelTill) (execs : ∀ req, t.Started req ↔ s.Started req)

include ctl requests locked till execs

theorem Ctl.frame : Ctl t where
  till req mark := requests ▸ ctl.till req (till ▸ mark)
  idle free := till ▸ ctl.idle (locked ▸ free)
  held hold none req member started :=
    ctl.held (locked ▸ hold) (till ▸ none) req (requests ▸ member) ((execs req).mp started)

/-- Moves that touch neither the chain, the lock nor the mark, and execute nothing. -/
theorem Back.frame : Back s t where
  ctl := ctl.frame requests locked till execs
  locked := locked
  till none := till ▸ none
  calm _ req member started := ⟨requests ▸ member, (execs req).mp started⟩

end

theorem Back.log {s : World ρ φ η ε} (ctl : Ctl s) {e : Event ρ φ η} (plain : e.Plain) :
    Back s (s.log e) := .frame ctl rfl rfl rfl (s.log_started plain)

theorem Back.fresh (back : Back s t) (held : 0 < s.locked) (fresh : s.Fresh) : t.Fresh := by
  intro req member started
  obtain ⟨member, started⟩ := back.calm held req member started
  exact fresh req member started

/-- What a call from `s` with outcome `o` guarantees of the state `t` it reached. -/
structure Post (Own : Owner ρ φ η ε) (s : World ρ φ η ε) (o : Outcome α)
    (t : World ρ φ η ε) : Prop where
  path : Path Own s t
  back : o.Returned → Back s t

section Post
variable {m : World ρ φ η ε}

theorem Post.refl (ctl : Ctl s) : Post Own s o s := ⟨.refl, fun _ => .refl ctl⟩

theorem Post.trans (first : Post Own s (.done value) m) (second : Post Own m o t) : Post Own s o t :=
  ⟨first.path.then (Nat.le_of_eq (first.back trivial).locked.symm) second.path,
    fun returned => (first.back trivial).trans (second.back returned)⟩

/-- A path in front of a call, when coming back from the call is coming back from the whole. -/
theorem Post.after (path : Path Own s m) (above : s.locked ≤ m.locked) (second : Post Own m o t)
    (extend : Back m t → Back s t) : Post Own s o t :=
  ⟨path.then above second.path, fun returned => extend (second.back returned)⟩

theorem Post.halted (path : Path Own s t) (final : why ≠ .thrown) :
    Post Own s (.halt why : Outcome α) t := ⟨path, fun returned => (final returned).elim⟩

theorem Post.wf (post : Post Own s o t) (own : ∀ s t, Own.Moves s t → Wf s → Wf t) (wf : Wf s) :
    Wf t := post.path.invariant (fun _ _ step => step.wf own) wf

theorem Post.ctl {value : α} (post : Post Own s (.done value) t) : Ctl t := (post.back trivial).ctl

/-- Only the outcome matters to the guarantee through whether control came back. -/
theorem Post.outcome {o' : Outcome β} (post : Post Own s o t) (same : o'.Returned → o.Returned) :
    Post Own s o' t := ⟨post.path, fun returned => post.back (same returned)⟩

end Post

/-- Control is back in the event loop. -/
structure Idle (s : World ρ φ η ε) : Prop where
  wf : Wf s
  ctl : Ctl s
  free : s.locked = 0

theorem Idle.back (idle : Idle s) (own : ∀ s t, Own.Moves s t → Wf s → Wf t) (post : Post Own s o t)
    (returned : o.Returned) : Idle t where
  wf := post.wf own idle.wf
  ctl := (post.back returned).ctl
  free := (post.back returned).locked.trans idle.free

/-- The members of a request behave as calls of the queue do, and the owner's moves keep the shape. -/
structure Hooks.Ok (Own : Owner ρ φ η ε) (h : Hooks ρ φ η ε) : Prop where
  own : ∀ s t, Own.Moves s t → Wf s → Wf t
  exec : ∀ s req, Wf s → Ctl s → s.requests.head? = some req → s.locked = 0 → s.Started req →
    wp (h.exec req) (Post Own s) s
  cancel : ∀ s req err, Wf s → Ctl s → s.requests.head? = some req →
    wp (h.cancel req err) (Post Own s) s
  notify : ∀ s req err, Wf s → Ctl s → wp (h.notify req err) (Post Own s) s
  call : ∀ s f, Wf s → Ctl s → wp (h.call f) (Post Own s) s
  user : ∀ s, Wf s → Ctl s → wp h.user (Post Own s) s

theorem Hooks.Ok.spent (own : ∀ s t, Own.Moves s t → Wf s → Wf t) : (Hooks.spent : Hooks ρ φ η ε).Ok Own where
  own := own
  exec _ _ _ _ _ _ _ := Post.halted .refl (by decide)
  cancel _ _ _ _ _ _ := Post.halted .refl (by decide)
  notify _ _ _ _ _ := Post.halted .refl (by decide)
  call _ _ _ _ := Post.halted .refl (by decide)
  user _ _ _ := Post.halted .refl (by decide)

section Control
/-- Keeping an exception does not change what a call guarantees. -/
theorem wp_attempt_post {Q : Outcome Bool → World ρ φ η ε → Prop} (first : wp m (Post Own s) s)
    (rest : ∀ kept t, Post Own s (.done () : Outcome Unit) t → Q (.done kept) t)
    (halted : ∀ why t, why ≠ .thrown → Path Own s t → Q (.halt why) t) : wp (attempt m) Q s := by
  rw [wp_attempt]
  refine wp_mono first ?_
  rintro (_ | why) t post
  · exact rest false t post
  · cases why with
    | thrown => exact rest true t (post.outcome fun _ => rfl)
    | stopped => exact halted .stopped t (by decide) post.path
    | exhausted => exact halted .exhausted t (by decide) post.path
    | aborted => exact halted .aborted t (by decide) post.path

theorem wp_ignoring_post (first : wp m (Post Own s) s) : wp (ignoring m) (Post Own s) s := by
  simp only [ignoring, wp_bind]
  refine wp_attempt_post first ?_ ?_
  · exact fun kept t post => post
  · exact fun why t final path => Post.halted path final

/-- Sequencing two calls, the second from the state the first one left. -/
theorem wp_bind_post {m : Exec (World ρ φ η ε) β} (first : wp m (Post Own s) s)
    (second : ∀ value t, Post Own s (.done value : Outcome β) t → wp (f value) (Post Own t) t) :
    wp (m >>= f) (Post Own s) s := by
  rw [wp_bind]
  refine wp_mono first ?_
  rintro (value | why) t post
  · exact wp_mono (second value t post) fun o t' next => post.trans next
  · exact post.outcome id

/-- A move of the queue in front of the rest of a call. -/
theorem wp_modify_post {f : World ρ φ η ε → World ρ φ η ε} {rest : Exec (World ρ φ η ε) α}
    (first : Post Own s (.done () : Outcome Unit) (f s)) (second : wp rest (Post Own (f s)) (f s)) :
    wp (modify f >>= fun _ => rest) (Post Own s) s := by
  rw [wp_modify_bind]
  exact wp_mono second fun _ _ post => first.trans post

end Control

namespace Queue
variable {h : Hooks ρ φ η ε} {fpre fpost : Exec (World ρ φ η ε) Unit} {till : Option ρ} {check req : ρ}

/-- The member `exec` is called on the front of a free queue, right after the call was logged. -/
theorem exec_post (ok : h.Ok Own) (own : s.locked = 0) {m : World ρ φ η ε} (path : Path Own s m) (wf : Wf m)
    (ctl : Ctl m) (atFront : m.requests.head? = some req) (free : m.locked = 0) (started : m.Started req) :
    wp (h.exec req) (Post Own s) m := by
  refine wp_mono (ok.exec m req wf ctl atFront free started) ?_
  intro o t post
  refine .after path (own ▸ Nat.zero_le _) post fun back => ⟨back.ctl, (back.locked.trans free).trans own.symm, ?_, ?_⟩
  · exact fun _ => back.till (ctl.idle free)
  · exact fun held => absurd own (Nat.ne_of_gt held)

theorem Ctl.exec (ctl : Ctl s) (free : s.locked = 0) (req : ρ) : Ctl (s.log (.exec req s.requests)) :=
  ⟨ctl.till, ctl.idle, fun held => absurd (show s.locked = 0 from free) (Nat.ne_of_gt held)⟩

private theorem start_post (ok : h.Ok Own) (wf : Wf s) (ctl : Ctl s) (atFront : s.requests.head? = some req)
    (free : s.locked = 0) (fresh : s.Fresh) : wp (start h req) (Post Own s) s := by
  have step : Step Own s (s.log (.exec req s.requests)) := .exec s req atFront free fresh
  simp only [start, wp_bind, wp_modify, next_done]
  refine exec_post ok free (.one step) (step.wf ok.own wf) (Ctl.exec ctl free req) atFront free ?_
  simp [World.Started, World.log]

/-- `resume` executes the front of a free queue; the caller answers for the front not having been
executed. -/
theorem resume_post (ok : h.Ok Own) (wf : Wf s) (ctl : Ctl s)
    (fresh : s.locked = 0 → s.Fresh) : wp (resume h) (Post Own s) s := by
  simp only [resume, wp_bind, wp_get, next_done]
  split
  · exact Post.refl ctl
  · rename_i req rest requests
    rw [wp_when]
    refine ⟨fun free => ?_, fun _ => Post.refl ctl⟩
    exact start_post ok wf ctl (by rw [requests, List.head?_cons]) free (fresh free)

private theorem pushed_post (ok : h.Ok Own) (wf : Wf s) (ctl : Ctl s) (member : req ∈ s.requests)
    (fresh : ¬ s.Started req) : wp (pushed h req) (Post Own s) s := by
  have started : wp (when (s.requests.length = 1 ∧ s.locked = 0) (start h req)) (Post Own s) s := by
    rw [wp_when]
    refine ⟨?_, fun _ => Post.refl ctl⟩
    rintro ⟨single, free⟩
    obtain ⟨only, requests⟩ := List.length_eq_one_iff.mp single
    obtain rfl : req = only := by simpa [requests] using member
    refine start_post ok wf ctl (by rw [requests, List.head?_cons]) free ?_
    intro other member
    obtain rfl : other = req := by simpa [requests] using member
    exact fresh
  simp only [pushed]
  rw [wp_get_bind]
  refine wp_bind_post started fun _ t post => ?_
  exact ⟨.one (.control t t.locked t.cancelGen t.resumeRecursion t.cancelTill _ le_rfl),
    fun _ => .frame (post.back trivial).ctl rfl rfl rfl fun _ => Iff.rfl⟩

/-- Appending a request, with whatever the owner writes down about it. -/
theorem enqueue_post (ctl : Ctl s) {owner : ε} (moved : Own.Moves s ({ s with owner }.enqueue req)) :
    Post Own s (.done () : Outcome Unit) ({ s with owner }.enqueue req) := by
  refine ⟨.one (.own moved), fun _ => ⟨⟨?_, ctl.idle, ?_⟩, rfl, id, ?_⟩⟩
  · exact fun other mark => List.mem_append_left _ (ctl.till other mark)
  · intro held unmarked other member started
    obtain ⟨member, started⟩ := { s with owner }.enqueue_calm member started
    exact ctl.held held unmarked other member started
  · exact fun _ other member started => { s with owner }.enqueue_calm member started

/-- `push`, for an owner that may append the request. -/
theorem push_post (ok : h.Ok Own) (wf : Wf s) (ctl : Ctl s) {owner : ε}
    (moved : Own.Moves s ({ s with owner }.enqueue req)) :
    wp (pushed h req) (Post Own s) ({ s with owner }.enqueue req) := by
  have added := enqueue_post ctl moved
  refine wp_mono (pushed_post ok (added.wf ok.own wf) added.ctl ?_ ?_) fun _ _ post => added.trans post
  · exact List.mem_append_right _ (List.mem_singleton_self _)
  · exact { s with owner }.enqueue_unstarted req

/-- The guard of `done` leaves the lock of the callback and goes on with the queue. -/
theorem release_post (ok : h.Ok Own) (wf : Wf s) (fresh : s.Fresh) (ctl : Ctl s.unlock) :
    wp (release h) (Post Own s.unlock) s := by
  let entered : World ρ φ η ε := { s.unlock with resumeRecursion := s.unlock.resumeRecursion + 1 }
  have enter : Post Own s.unlock (.done () : Outcome Unit) entered :=
    ⟨.one (.control s.unlock _ _ _ _ _ le_rfl), fun _ => .frame ctl rfl rfl rfl fun _ => Iff.rfl⟩
  have wf' : Wf entered := { wf with }
  have resumed : wp (resume h) (Post Own entered) entered :=
    resume_post ok wf' (enter.back trivial).ctl fun _ => fresh
  simp only [release, wp_bind, wp_modify, next_done]
  refine wp_mono resumed ?_
  rintro (_ | why) t post
  · refine (enter.trans post).trans ⟨.one (.control t _ _ _ _ _ le_rfl), fun _ => ?_⟩
    exact .frame (post.back trivial).ctl rfl rfl rfl fun _ => Iff.rfl
  · exact enter.trans post

/-- A request that `done` has removed is not the cancel mark any more. -/
theorem retire_till (ctl : Ctl s) {check req : ρ} (atFront : s.requests.head? = some check)
    (mark : (s.retire check).cancelTill = some req) : req ∈ (s.retire check).requests := by
  obtain ⟨rest, requests⟩ := List.head?_eq_some_iff.mp atFront
  change (if s.cancelTill = some check then none else s.cancelTill) = some req at mark
  change req ∈ s.requests.tail
  split at mark
  · cases mark
  · rename_i other
    have member := ctl.till req mark
    rw [requests, List.mem_cons] at member
    rw [requests, List.tail_cons]
    exact member.resolve_left fun same => other (same ▸ mark)

theorem retire_unmarked (unmarked : s.cancelTill = none) : (s.retire check).cancelTill = none := by
  simp [World.retire, World.finishExec, World.delayCancel, unmarked]

/-- Removing the front and delaying its closure. -/
theorem park_post (wf : Wf s) (ctl : Ctl s) (f : φ) (split : Bool) (atFront : s.requests.head? = some check)
    (fits : Own.Fits s check f) (why : split = true ∨ s.async check = false) :
    Post Own s (.done () : Outcome Unit) (((s.log (.done check s.requests)).retire check).park check f split) := by
  refine ⟨.one (.park s check f split atFront fits why), fun _ => ⟨⟨?_, ?_, ?_⟩, rfl, retire_unmarked (s := s), ?_⟩⟩
  · intro req mark
    exact retire_till (s := s) ctl atFront mark
  · exact fun free => retire_unmarked (s := s) (ctl.idle free)
  · exact fun _ _ req member started => wf.tail_fresh atFront req member started
  · exact fun _ req member started => (wf.tail_fresh atFront req member started).elim

/-- `m` is where the closure of a request removed in `s` starts: one lock deeper, with nothing executed. -/
structure Entered (s m : World ρ φ η ε) : Prop where
  ctl : Ctl m
  locked : m.locked = s.locked + 1
  fresh : m.Fresh
  till : s.cancelTill = none → m.cancelTill = none

theorem Entered.finish (wf : Wf s) (ctl : Ctl s) (f : φ) (atFront : s.requests.head? = some check) :
    Entered s ((((s.log (.done check s.requests)).retire check).lock).log (.finish check f s.finalizedRequests)) := by
  have fresh : ∀ req ∈ s.requests.tail, ¬ s.Started req := wf.tail_fresh atFront
  refine ⟨⟨fun req mark => ?_, fun free => absurd free (Nat.succ_ne_zero _), fun _ _ => fresh⟩, rfl, fresh, ?_⟩
  · exact retire_till (s := s) ctl atFront mark
  · exact retire_unmarked (s := s)

/-- The lock the closure ran under can be left. -/
theorem Entered.leave {m t : World ρ φ η ε} (entered : Entered s m) (ctl : Ctl s) (back : Back m t) :
    t.Fresh ∧ t.unlock.locked = s.locked ∧ Ctl t.unlock := by
  have fresh : t.Fresh := back.fresh (entered.locked ▸ Nat.succ_pos _) entered.fresh
  have locked : t.unlock.locked = s.locked := by
    change t.locked - 1 = s.locked
    rw [back.locked, entered.locked, Nat.add_sub_cancel]
  refine ⟨fresh, locked, back.ctl.till, fun free => ?_, fun _ _ => fresh⟩
  exact back.till (entered.till (ctl.idle (locked ▸ free)))

/-- Removing the front, running its closure under the lock and going on. -/
theorem finish_post (ok : h.Ok Own) (wf : Wf s) (ctl : Ctl s) (f : φ) (atFront : s.requests.head? = some check)
    (fits : Own.Fits s check f) (async : s.async check = true) : wp (scopeGuard (h.call f) (release h)) (Post Own s)
      ((((s.log (.done check s.requests)).retire check).lock).log (.finish check f s.finalizedRequests)) := by
  have step : Step Own s _ := .finish s check f atFront fits async
  have entered := Entered.finish wf ctl f atFront
  simp only [scopeGuard, wp_bind]
  refine wp_attempt_post (ok.call _ f (step.wf ok.own wf) entered.ctl) ?_ ?_
  · intro kept t post
    have back := post.back trivial
    obtain ⟨fresh, free, unlocked⟩ := entered.leave ctl back
    have reached : Path Own s t := (Path.one step).then (Nat.le_succ _) post.path
    have above : s.locked ≤ t.locked := by rw [back.locked, entered.locked]; exact Nat.le_succ _
    have leave : Path Own s t.unlock := reached.tail above (.control t _ _ _ _ _ le_rfl)
    have finished (o : Outcome Unit) (u : World ρ φ η ε) (after : Post Own t.unlock o u) : Post Own s o u := by
      refine .after leave (Nat.le_of_eq free.symm) after fun last => ⟨last.ctl, last.locked.trans free, ?_, ?_⟩
      · exact fun none => last.till (back.till (entered.till none))
      · intro held req member started
        exact (last.fresh (free ▸ held) fresh req member started).elim
    rw [next_done, wp_bind]
    refine wp_mono (release_post ok (reached.invariant (fun _ _ step => step.wf ok.own) wf) fresh unlocked) ?_
    rintro (_ | why) u after
    · rw [next_done, wp_when]
      exact ⟨fun _ => finished _ u (after.outcome fun _ => trivial), fun _ => finished _ u after⟩
    · exact finished _ u after
  · exact fun why t final path => .halted ((Path.one step).then (Nat.le_succ _) path) final

/-- `done` behaves as a call of the queue, also where its assertion fails. -/
theorem done_post (ok : h.Ok Own) (wf : Wf s) (ctl : Ctl s) {f : φ}
    (fits : s.requests.head? = some check → Own.Fits s check f)
    (entry : s.requests.head? = some check ∨ Own.Lost s check) : wp (done h check f) (Post Own s) s := by
  simp only [done, wp_bind, wp_modify, wp_get, next_done, wp_assert]
  refine ⟨fun atFront => ?_, fun other => ?_⟩
  · simp only [next_done, complete, wp_bind, wp_get]
    split
    · exact park_post wf ctl f true atFront (fits atFront) (.inl rfl)
    · split
      · rename_i async
        exact finish_post ok wf ctl f atFront (fits atFront) async
      · rename_i async
        exact park_post wf ctl f false atFront (fits atFront) (.inr (Bool.eq_false_iff.mpr async))
  · exact .halted (.one (.refuse s check other (entry.resolve_left other))) (by decide)

/-- A whole call: a pre or post step of a cancel, or one of the owner's members. -/
def Spec (Own : Owner ρ φ η ε) (m : Exec (World ρ φ η ε) Unit) : Prop :=
  ∀ s, Wf s → Ctl s → wp m (Post Own s) s

/-- A call whose exceptions are all kept. -/
structure Quiet (Own : Owner ρ φ η ε) (s : World ρ φ η ε) (o : Outcome α)
    (t : World ρ φ η ε) : Prop where
  post : Post Own s o t
  kept : o ≠ .halt .thrown

/-- A quiet call after which no waiting request has been executed. -/
structure Cleared (Own : Owner ρ φ η ε) (s : World ρ φ η ε) (o : Outcome α)
    (t : World ρ φ η ε) : Prop extends Quiet Own s o t where
  fresh : o.Returned → t.Fresh

theorem Quiet.halted (path : Path Own s t) (final : why ≠ .thrown) :
    Quiet Own s (.halt why : Outcome α) t := ⟨.halted path final, fun same => final (Outcome.halt.inj same)⟩

theorem Quiet.done {result : β} (value : α) (post : Post Own s (.done result) t) :
    Quiet Own s (.done value) t := ⟨post.outcome id, by simp⟩

theorem Cleared.halted (path : Path Own s t) (final : why ≠ .thrown) :
    Cleared Own s (.halt why : Outcome α) t := ⟨.halted path final, fun returned => (final returned).elim⟩

theorem Quiet.cleared (quiet : Quiet Own s o t) (held : 0 < s.locked) (fresh : s.Fresh) : Cleared Own s o t :=
  ⟨quiet, fun returned => (quiet.post.back returned).fresh held fresh⟩

theorem Quiet.trans {m t : World ρ φ η ε} (first : Post Own s (.done value) m) (second : Quiet Own m o t) :
    Quiet Own s o t :=
  ⟨first.trans second.post, second.kept⟩

theorem Cleared.trans {m t : World ρ φ η ε} (first : Post Own s (.done value) m) (second : Cleared Own m o t) :
    Cleared Own s o t :=
  ⟨second.toQuiet.trans first, second.fresh⟩

theorem wp_attempt_quiet (first : wp m (Post Own s) s) : wp (attempt m) (Quiet Own s) s :=
  wp_attempt_post first (fun kept _ post => .done kept post) fun _ _ final path => .halted path final

theorem wp_bind_quiet {m : Exec (World ρ φ η ε) β} (first : wp m (Quiet Own s) s)
    (second : ∀ value t, Post Own s (.done value : Outcome β) t → wp (f value) (Quiet Own t) t) :
    wp (m >>= f) (Quiet Own s) s := by
  rw [wp_bind]
  refine wp_mono first ?_
  rintro (value | why) t quiet
  · exact wp_mono (second value t quiet.post) fun o t' next => next.trans quiet.post
  · exact .halted quiet.post.path fun same => quiet.kept (same ▸ rfl)

private theorem wp_bind_cleared {m : Exec (World ρ φ η ε) β} (first : wp m (Quiet Own s) s)
    (second : ∀ value t, Post Own s (.done value : Outcome β) t → wp (f value) (Cleared Own t) t) :
    wp (m >>= f) (Cleared Own s) s := by
  rw [wp_bind]
  refine wp_mono first ?_
  rintro (value | why) t quiet
  · exact wp_mono (second value t quiet.post) fun o t' next => next.trans quiet.post
  · exact .halted quiet.post.path fun same => quiet.kept (same ▸ rfl)

theorem flushFinalized_post (ok : h.Ok Own) (budget : ℕ) :
    ∀ s, Wf s → Ctl s → wp (flushFinalized h budget) (Quiet Own s) s := by
  induction budget with
  | zero => exact fun s _ ctl => .halted .refl (by decide)
  | succ budget ih =>
    intro s wf ctl
    simp only [flushFinalized]
    rw [wp_get_bind]
    split
    · exact .done false (Post.refl (o := .done ()) ctl)
    · rename_i cur rest parked
      have step : Step Own s (s.flush cur .canceled) := .flush s cur _ (by rw [parked, List.head?_cons])
      have flushed : Post Own s (.done () : Outcome Unit) (s.flush cur .canceled) :=
        ⟨.one step, fun _ => .frame ctl rfl rfl rfl fun _ => Iff.rfl⟩
      have wf' := flushed.wf ok.own wf
      rw [wp_modify_bind]
      refine wp_mono (wp_bind_quiet (wp_attempt_quiet (ok.notify _ cur _ wf' flushed.ctl)) ?_)
        fun _ _ quiet => quiet.trans flushed
      intro kept t post
      refine wp_bind_quiet (ih t (post.wf ok.own wf') post.ctl) fun later u last => ?_
      exact .done _ (Post.refl (o := .done ()) last.ctl)

/-- Once the front has been canceled and has left, no waiting request has been executed: what ran
under the lock executed nothing, and only the canceled front had been executed before. -/
theorem fresh_of_canceled (wf : Wf s) (back : Back s t) (wf' : Wf t) {cur : ρ} (atFront : s.requests.head? = some cur)
    (held : 0 < s.locked) (gone : t.requests.head? ≠ some cur) : t.Fresh := by
  intro req member started
  obtain ⟨earlier, before⟩ := back.calm held req member started
  have same := wf.front_eq atFront earlier before
  exact gone (same ▸ wf'.front req member started)

theorem cancelRequests_post (ok : h.Ok Own) (budget : ℕ) :
    ∀ s, Wf s → Ctl s → 0 < s.locked → wp (cancelRequests h budget) (Cleared Own s) s := by
  induction budget with
  | zero => exact fun s _ ctl _ => .halted .refl (by decide)
  | succ budget ih =>
    intro s wf ctl held
    simp only [cancelRequests]
    rw [wp_get_bind]
    split
    · exact .halted .refl (by decide)
    · rename_i cur rest requests
      have atFront : s.requests.head? = some cur := by rw [requests, List.head?_cons]
      have logged : Post Own s (.done () : Outcome Unit) (s.log (.cancel cur)) :=
        ⟨.one (.cancel s cur atFront), fun _ => .log ctl trivial⟩
      have wf' := logged.wf ok.own wf
      simp only [wp_bind, wp_modify, next_done]
      refine wp_attempt_post (ok.cancel _ cur _ wf' logged.ctl atFront) ?_ ?_
      · intro kept t post
        have reached := logged.trans post
        have back := reached.back trivial
        have wf'' := post.wf ok.own wf'
        simp only [next_done, wp_bind, wp_get, wp_assert]
        refine ⟨fun gone => ?_, fun _ => .halted reached.path (by decide)⟩
        have fresh : t.Fresh := fresh_of_canceled wf back wf'' atFront held gone
        have locked : 0 < t.locked := by rw [back.locked]; exact held
        split
        · have rest := wp_mono (ih t wf'' reached.ctl locked) fun _ _ => Cleared.toQuiet
          refine wp_mono (wp_bind_quiet rest fun later u last => ?_)
            fun _ _ quiet => (quiet.cleared locked fresh).trans reached
          exact .done _ (Post.refl (o := .done ()) last.ctl)
        · exact ⟨.done kept reached, fun _ => fresh⟩
      · exact fun why t final path => .halted (logged.path.then le_rfl path) final

theorem cancelWaiting_post (ok : h.Ok Own) (wf : Wf s) (ctl : Ctl s) (held : 0 < s.locked) :
    wp (cancelWaiting h) (Cleared Own s) s := by
  simp only [cancelWaiting, wp_bind, wp_get, next_done]
  split
  · exact cancelRequests_post ok h.budget s wf ctl held
  · rename_i nothing
    have fresh : s.Fresh := by
      by_cases unmarked : s.cancelTill = none
      · exact ctl.held held unmarked
      · have empty : s.requests = [] := not_not.mp fun some => nothing ⟨some, unmarked⟩
        simp [World.Fresh, empty]
    exact ⟨.done false (Post.refl (o := .done ()) ctl), fun _ => fresh⟩

theorem postCancel_post {fpost : Exec (World ρ φ η ε) Unit} {gen : ℕ} (ctl : Ctl s)
    (post : s.cancelGen = gen → wp fpost (Post Own s) s) : wp (postCancel fpost gen) (Quiet Own s) s := by
  simp only [postCancel]
  rw [wp_get_bind]
  split
  · rename_i same
    refine wp_attempt_quiet (wp_bind_post (post same.symm) fun _ t last => ?_)
    exact ⟨.one (.control t _ _ _ _ _ (Nat.le_succ _)), fun _ => .frame last.ctl rfl rfl rfl fun _ => Iff.rfl⟩
  · exact .done false (Post.refl (o := .done ()) ctl)

/-- `cancel` from its pre step up to its post step. -/
theorem pendingRest_post (ok : h.Ok Own) {fpre : Exec (World ρ φ η ε) Unit} (flushed : Bool) (wf : Wf s)
    (held : 0 < s.locked) (pre : wp fpre (Post Own s) s) :
    wp (do let pre ← attempt fpre; let canceled ← cancelWaiting h; pure (flushed || pre || canceled))
      (Cleared Own s) s := by
  refine wp_bind_cleared (wp_attempt_quiet pre) fun preKept t second => ?_
  have held' : 0 < t.locked := by rw [(second.back trivial).locked]; exact held
  rw [wp_bind]
  refine wp_mono (cancelWaiting_post ok (second.wf ok.own wf) second.ctl held') ?_
  rintro (canceled | why) u cleared
  · exact ⟨.done _ cleared.post, cleared.fresh⟩
  · exact .halted cleared.post.path fun same => cleared.kept (same ▸ rfl)

/-- The pre step is run where the flush of parked callbacks has led. -/
theorem cancelPending_post (ok : h.Ok Own) {fpre : Exec (World ρ φ η ε) Unit} (wf : Wf s) (ctl : Ctl s)
    (held : 0 < s.locked) (pre : wp (flushFinalized h h.budget)
      (fun o m => o.Returned → Wf m → Ctl m → wp fpre (Post Own m) m) s) :
    wp (cancelPending h fpre) (Cleared Own s) s := by
  simp only [cancelPending]
  rw [wp_bind]
  refine wp_mono (wp_and (flushFinalized_post ok h.budget s wf ctl) pre) ?_
  rintro (flushed | why) m ⟨quiet, pre⟩
  · have wf' := quiet.post.wf ok.own wf
    have held' : 0 < m.locked := by rw [(quiet.post.back trivial).locked]; exact held
    exact wp_mono (pendingRest_post ok flushed wf' held' (pre trivial wf' quiet.post.ctl))
      fun _ _ cleared => cleared.trans quiet.post
  · exact .halted quiet.post.path fun same => quiet.kept (same ▸ rfl)

theorem cancelLocked_post (ok : h.Ok Own) (gen : ℕ) (wf : Wf s) (ctl : Ctl s) (held : 0 < s.locked)
    (pre : wp (flushFinalized h h.budget) (fun o m => o.Returned → Wf m → Ctl m → wp fpre (Post Own m) m) s)
    (post : wp (cancelPending h fpre)
      (fun o m => o.Returned → Wf m → Ctl m → m.cancelGen = gen → wp fpost (Post Own m) m) s) :
    wp (cancelLocked h fpre fpost gen) (Cleared Own s) s := by
  simp only [cancelLocked]
  rw [wp_bind]
  refine wp_mono (wp_and (cancelPending_post ok wf ctl held pre) post) ?_
  rintro (kept | why) m ⟨cleared, post⟩
  · have held' : 0 < m.locked := by rw [(cleared.post.back trivial).locked]; exact held
    have last := postCancel_post cleared.post.ctl
      (post trivial (cleared.post.wf ok.own wf) cleared.post.ctl)
    refine wp_mono (wp_bind_quiet last fun postKept v last => ?_)
      fun _ _ quiet => (quiet.cleared held' (cleared.fresh trivial)).trans cleared.post
    exact .done _ (Post.refl (o := .done ()) last.ctl)
  · exact .halted cleared.post.path fun same => cleared.kept (same ▸ rfl)

theorem beginCancel_ctl (member : ∀ req, till = some req → req ∈ s.requests) : Ctl (s.beginCancel till) := by
  refine ⟨fun req mark => ?_, fun free => absurd free (Nat.succ_ne_zero _), fun _ unmarked => ?_⟩
  · change (till.orElse fun _ => s.requests.getLast?) = some req at mark
    cases till with
    | none => exact List.mem_of_getLast? mark
    | some mark' => exact member req mark
  · change (till.orElse fun _ => s.requests.getLast?) = none at unmarked
    cases till with
    | none =>
      have empty : s.requests = [] := List.getLast?_eq_none_iff.mp unmarked
      simp [World.Fresh, World.beginCancel, World.lock, empty]
    | some mark => cases unmarked

theorem beginCancel_wf (wf : Wf s) (till : Option ρ) : Wf (s.beginCancel till) :=
  { wf with }

/-- The lock and the mark of `cancel` can be left once nothing waiting has been executed. -/
theorem endCancel_post {kept : Bool} (cleared : Cleared Own (s.beginCancel till) (.done kept) t) :
    Post Own s (.done () : Outcome Unit) t.endCancel := by
  have fresh : t.endCancel.Fresh := cleared.fresh trivial
  have enter : Path Own s (s.beginCancel till) := .one (.control s _ _ _ _ _ le_rfl)
  have locked : t.endCancel.locked = s.locked := by
    change t.locked - 1 = s.locked
    rw [(cleared.post.back trivial).locked]
    rfl
  have above : s.locked ≤ t.locked := by
    rw [(cleared.post.back trivial).locked]
    exact Nat.le_succ _
  refine ⟨(enter.then (Nat.le_succ _) cleared.post.path).tail above (.control t _ _ _ _ _ le_rfl), fun _ => ?_⟩
  refine ⟨⟨fun req mark => (by cases mark), fun _ => rfl, fun _ _ => fresh⟩, locked, fun _ => rfl, ?_⟩
  exact fun _ req member started => (fresh req member started).elim

/-- `cancel` ends with the queue free to go on, whether or not it was nested in another one. -/
theorem cancel_post (ok : h.Ok Own) (member : ∀ req, till = some req → req ∈ s.requests) (wf : Wf s)
    (pre : wp (flushFinalized h h.budget) (fun o m => o.Returned → Wf m → Ctl m → wp fpre (Post Own m) m)
      (s.beginCancel till))
    (post : wp (cancelPending h fpre)
      (fun o m => o.Returned → Wf m → Ctl m → m.cancelGen = s.cancelGen → wp fpost (Post Own m) m)
      (s.beginCancel till)) :
    wp (cancel h fpre fpost till) (Post Own s) s := by
  have enter : Path Own s (s.beginCancel till) := .one (.control s _ _ _ _ _ le_rfl)
  simp only [cancel, wp_bind, wp_modify, wp_get, next_done]
  refine wp_mono (cancelLocked_post ok _ (beginCancel_wf wf till) (beginCancel_ctl member) (Nat.succ_pos _) pre post) ?_
  rintro (kept | why) t cleared
  · have ended := endCancel_post cleared
    simp only [wp_bind, wp_modify, next_done]
    refine wp_mono (resume_post ok (ended.wf ok.own wf) ended.ctl fun _ => cleared.fresh trivial) ?_
    rintro (_ | why) u last
    · rw [next_done, wp_when]
      exact ⟨fun _ => (ended.trans last).outcome fun _ => trivial, fun _ => ended.trans last⟩
    · exact ended.trans last
  · exact .halted (enter.then (Nat.le_succ _) cleared.post.path) fun same => cleared.kept (same ▸ rfl)

/-- A cancel whose post step does not throw leaves a later generation behind, for itself or for a
cancel nested in it. -/
theorem cancel_gen (ok : h.Ok Own) (own : ∀ s t, Own.Moves s t → s.cancelGen ≤ t.cancelGen)
    (member : ∀ req, till = some req → req ∈ s.requests) (wf : Wf s)
    (pre : wp (flushFinalized h h.budget) (fun o m => o.Returned → Wf m → Ctl m → wp fpre (Post Own m) m)
      (s.beginCancel till))
    (post : Spec Own fpost) (quiet : ∀ m, (fpost m).1 = .done ()) :
    wp (cancel h fpre fpost till) (fun o t => o.Returned → s.cancelGen < t.cancelGen) s := by
  have wf' := beginCancel_wf wf till
  have ctl' := beginCancel_ctl member
  have whole := cancelLocked_post ok s.cancelGen wf' ctl' (Nat.succ_pos _) pre (fun _ wf ctl _ => post _ wf ctl)
  have grown : wp (cancelLocked h fpre fpost s.cancelGen)
      (fun o t => (∃ kept, o = .done kept) → s.cancelGen < t.cancelGen) (s.beginCancel till) := by
    simp only [cancelLocked]
    rw [wp_bind]
    refine wp_mono (cancelPending_post ok wf' ctl' (Nat.succ_pos _) pre) ?_
    rintro (kept | why) m cleared
    · have later := cleared.post.path.gen own
      simp only [next_done, postCancel, wp_bind, wp_get]
      split
      · have step := (post m (cleared.post.wf ok.own wf') cleared.post.ctl).path.gen own
        rw [wp_attempt, wp_bind, wp, quiet m]
        exact fun _ => Nat.lt_succ_of_le (le_trans later step)
      · rename_i other
        exact fun _ => lt_of_le_of_ne later other
    · rintro ⟨kept, same⟩
      cases same
  simp only [cancel, wp_bind, wp_modify, wp_get, next_done]
  refine wp_mono (wp_and whole grown) ?_
  rintro (kept | why) t ⟨cleared, grown⟩
  · have ended := endCancel_post cleared
    have later : s.cancelGen < t.endCancel.cancelGen := grown ⟨kept, rfl⟩
    simp only [wp_bind, wp_modify, next_done]
    refine wp_mono (resume_post ok (ended.wf ok.own wf) ended.ctl fun _ => cleared.fresh trivial) ?_
    rintro (_ | why) u last
    · rw [next_done, wp_when]
      exact ⟨fun _ _ => lt_of_lt_of_le later (last.path.gen own), fun _ _ => lt_of_lt_of_le later (last.path.gen own)⟩
    · exact fun _ => lt_of_lt_of_le later (last.path.gen own)
  · exact fun returned => (cleared.kept (congrArg Outcome.halt returned)).elim

private theorem splitCallback_post (ok : h.Ok Own) (f : φ) (wf : Wf s) (ctl : Ctl s) (free : s.locked = 0) :
    wp (splitCallback h f) (Post Own s) s := by
  simp only [splitCallback]
  refine wp_bind_post (wp_mono (wp_attempt_quiet (ok.call s f wf ctl)) fun _ _ => Quiet.post) ?_
  intro failed t post
  have wf' := post.wf ok.own wf
  have free' : t.locked = 0 := (post.back trivial).locked.trans free
  split
  · have logged : Post Own t (.done () : Outcome Unit) (t.log (.skip t.requests t.splitPending)) :=
      ⟨.one (.skip t), fun _ => .log post.ctl trivial⟩
    exact wp_modify_post (f := fun s => s.log (.skip s.requests s.splitPending)) logged (Post.refl logged.ctl)
  · have ctl' : Ctl (t.log (.resume t.requests)) := (Back.log (e := .resume t.requests) post.ctl trivial).ctl
    have wf'' : Wf (t.log (.resume t.requests)) := wf'.log trivial
    simp only [wp_bind, wp_modify, next_done, resume, wp_get]
    split
    · rename_i empty
      exact ⟨.one (.rest t empty), fun _ => .log post.ctl trivial⟩
    · rename_i req rest requests
      have atFront : t.requests.head? = some req := by
        rw [show t.requests = req :: rest from requests, List.head?_cons]
      rw [wp_when]
      refine ⟨fun _ => ?_, fun held => (held free').elim⟩
      simp only [start, wp_bind, wp_modify, next_done]
      refine exec_post ok free' (.one (.restart t req atFront free')) (wf''.exec atFront)
        (Ctl.exec ctl' free' req) atFront free' ?_
      simp [World.Started, World.log]

theorem fire_post (ok : h.Ok Own) (wf : Wf s) (ctl : Ctl s) (free : s.locked = 0) : wp (fire h) (Post Own s) s := by
  simp only [fire]
  rw [wp_get_bind]
  split
  · exact Post.refl ctl
  · rename_i check f split rest next
    rw [wp_bind, wp_assert]
    refine ⟨fun atFront => ?_, fun _ => .halted .refl (by decide)⟩
    have unparked : Post Own s (.done () : Outcome Unit) (s.unpark check f) :=
      ⟨.one (.unpark s check f split rest next atFront),
        fun _ => .frame ctl rfl rfl rfl (s.log_started (e := .fire check f) trivial)⟩
    have wf' := unparked.wf ok.own wf
    refine wp_modify_post unparked ?_
    split
    · exact splitCallback_post ok f wf' unparked.ctl free
    · exact ok.call _ f wf' unparked.ctl
  · rename_i req err rest next
    obtain ⟨atFront, started⟩ := wf.retry req err (next ▸ List.mem_cons_self ..)
    have taken : Post Own s (.done () : Outcome Unit) { s with delayed := rest } :=
      ⟨.one (.retry s req err rest next), fun _ => .frame ctl rfl rfl rfl fun _ => Iff.rfl⟩
    refine wp_modify_post (f := fun s => { s with delayed := rest }) taken ?_
    exact ok.cancel _ req err (taken.wf ok.own wf) taken.ctl atFront

end Queue

/-! ### Runs -/

/-- A new queue is idle. -/
theorem World.initial_idle (owner : ε) : Idle (World.initial owner : World ρ φ η ε) where
  wf := ⟨List.nodup_nil, by simp [initial], rfl, by simp [initial], by simp [initial]⟩
  ctl := ⟨by simp [initial], fun _ => rfl, by simp [initial]⟩
  free := rfl

/-- If every turn of the loop is a path from a state at rest back to one, then a run is a path, and leaves the state at
rest unless its last turn never came back. -/
theorem wp_run_post {τ : Type} {Rest : World ρ φ η ε → Prop} {turn : τ → Exec (World ρ φ η ε) Unit}
    {run : List τ → Exec (World ρ φ η ε) Unit} (stop : run [] = pure ())
    (next : ∀ t ts, run (t :: ts) = ignoring (turn t) >>= fun _ => run ts)
    (back : ∀ s (o : Outcome Unit) t, Rest s → Post Own s o t → o.Returned → Rest t)
    (turns : ∀ t s, Rest s → wp (turn t) (Post Own s) s) (ts : List τ) :
    ∀ s, Rest s → wp (run ts) (fun o t => Path Own s t ∧ (o.Returned → Rest t)) s := by
  induction ts with
  | nil =>
    intro s rest
    rw [stop]
    exact ⟨.refl, fun _ => rest⟩
  | cons t ts ih =>
    intro s rest
    rw [next, wp_bind]
    refine wp_mono (wp_ignoring_post (turns t s rest)) ?_
    rintro (_ | why) m post
    · rw [next_done]
      refine wp_mono (ih m (back s _ m rest post trivial)) ?_
      exact fun _ _ later => ⟨post.path.then (Nat.le_of_eq (post.back trivial).locked.symm) later.1, later.2⟩
    · exact ⟨post.path, fun returned => back s _ m rest post returned⟩

end UniEvent
