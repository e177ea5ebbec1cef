import UniEvent.Program.Log
import UniEvent.Proofs.QueueCalls

/-! # Which calls of the queue keep it going

A queue keeps going while it is locked (whoever holds the lock resumes it), its front is with the
backend or about to be completed, or a split callback is scheduled. `Live Own P F given s o t`
strengthens the guarantee of a call: it leaves the queue tidy, and going if `given` held. `done`,
`resume` and `cancel` make the queue going whatever held before (`given` is `True`); code of the user
keeps it going.

There are exceptions, which the owner tells by a condition `P` on the trace; nothing is claimed of a
run in which it has failed. The callback of a split completion is one of them: when its closure
throws, its `resume()` is skipped. Another is a request that is completed while its `push` is under
way: `done` does not resume the queue then.
-/

namespace UniEvent

open Program Program.Exec

variable {ρ φ η ε α β : Type} [DecidableEq ρ]

/-- A call that is under way: a `push` that executes its request, or a `handle_event` that runs code of
the user and has still to complete its request. -/
inductive Frame (ρ : Type) where
  | push (req : ρ)
  | handle (req : ρ)

variable {P : Event ρ φ η → List (Event ρ φ η) → Prop} {F G : List (Frame ρ)} {o : Outcome α} {Own : Owner ρ φ η ε}
  {check : ρ}

/-- Requests have been pushed, except for those that their `push` is executing. -/
def Pushed (P : Event ρ φ η → List (Event ρ φ η) → Prop) (F : List (Frame ρ)) (s : World ρ φ η ε) : Prop :=
  Along P s.trace → ∀ req ∈ s.requests, s.async req = true ∨ (.push req ∈ F ∧ s.Started req)

/-- The state user code finds and leaves. -/
structure Tidy (P : Event ρ φ η → List (Event ρ φ η) → Prop) (F : List (Frame ρ)) (s : World ρ φ η ε) : Prop where
  async : Pushed P F s
  awaited : Along P s.trace → ∀ req, s.requests.head? = some req → s.Started req →
    s.active req = true ∨ .handle req ∈ F

/-- Somebody will resume the queue, or the backend holds its front. -/
def Going (P : Event ρ φ η → List (Event ρ φ η) → Prop) (F : List (Frame ρ)) (s : World ρ φ η ε) : Prop :=
  Along P s.trace → 0 < s.locked ∨ s.splitPending = true ∨
    ∀ req ∈ s.requests.head?, s.active req = true ∨ .handle req ∈ F

/-- The guarantee of a call that leaves the queue tidy, and going if `given` held. -/
structure Live (Own : Owner ρ φ η ε) (P : Event ρ φ η → List (Event ρ φ η) → Prop) (F : List (Frame ρ)) (given : Prop)
    (s : World ρ φ η ε) (o : Outcome α) (t : World ρ φ η ε) : Prop extends Post Own s o t where
  tidy : o.Returned → Tidy P F t
  going : o.Returned → given → Going P F t

section Live
variable {given : Prop} {s m t : World ρ φ η ε} {c : Exec (World ρ φ η ε) Unit}

theorem Live.refl (ctl : Ctl s) (tidy : Tidy P F s) : Live Own P F (Going P F s) s o s :=
  ⟨.refl ctl, fun _ => tidy, fun _ => id⟩

theorem Live.halted {why : Halt} (path : Path Own s t) (final : why ≠ .thrown) :
    Live Own P F given s (.halt why : Outcome α) t :=
  ⟨.halted path final, fun returned => (final returned).elim, fun returned => (final returned).elim⟩

theorem Live.outcome {o' : Outcome β} (live : Live Own P F given s o t) (same : o'.Returned → o.Returned) :
    Live Own P F given s o' t :=
  ⟨live.toPost.outcome same, fun returned => live.tidy (same returned), fun returned => live.going (same returned)⟩

/-- A call in front of one that keeps the queue going. -/
theorem Live.trans {value : β} (first : Live Own P G given s (.done value) m)
    (second : Live Own P F (Going P G m) m o t) : Live Own P F given s o t :=
  ⟨first.toPost.trans second.toPost, second.tidy,
    fun returned held => second.going returned (first.going trivial held)⟩

/-- A call in front of one that makes the queue going. -/
theorem Live.resumed {value : β} (first : Post Own s (.done value) m) (second : Live Own P F True m o t) :
    Live Own P F given s o t :=
  ⟨first.trans second.toPost, second.tidy, fun returned _ => second.going returned trivial⟩

theorem Live.weaken {given' : Prop} (live : Live Own P F given s o t) (weaker : given' → given) :
    Live Own P F given' s o t :=
  ⟨live.toPost, live.tidy, fun returned held => live.going returned (weaker held)⟩

theorem wp_bind_live {c : Exec (World ρ φ η ε) β} {f : β → Exec (World ρ φ η ε) α}
    (first : wp c (Live Own P F given s) s)
    (second : ∀ value t, Live Own P F given s (.done value : Outcome β) t →
      wp (f value) (Live Own P F (Going P F t) t) t) :
    wp (c >>= f) (Live Own P F given s) s := by
  rw [wp_bind]
  refine wp_mono first ?_
  rintro (value | why) t live
  · exact wp_mono (second value t live) fun o t' next => live.trans next
  · exact live.outcome id

theorem wp_attempt_live {Q : Outcome Bool → World ρ φ η ε → Prop} (first : wp c (Live Own P F given s) s)
    (rest : ∀ kept t, Live Own P F given s (.done kept : Outcome Bool) t → Q (.done kept) t)
    (halted : ∀ why t, why ≠ .thrown → Path Own s t → Q (.halt why) t) : wp (attempt c) Q s := by
  rw [wp_attempt]
  refine wp_mono first ?_
  rintro (_ | why) t live
  · exact rest false t (live.outcome id)
  · cases why with
    | thrown => exact rest true t (live.outcome fun _ => rfl)
    | stopped => exact halted .stopped t (by decide) live.path
    | exhausted => exact halted .exhausted t (by decide) live.path
    | aborted => exact halted .aborted t (by decide) live.path

theorem wp_kept_live (first : wp c (Live Own P F given s) s) : wp (attempt c) (Live Own P F given s) s :=
  wp_attempt_live first (fun _ _ live => live) fun _ _ final path => .halted path final

theorem wp_ignoring_live (first : wp c (Live Own P F given s) s) : wp (ignoring c) (Live Own P F given s) s := by
  refine wp_bind_live (wp_kept_live first) ?_
  exact fun kept t live => .refl live.ctl (live.tidy trivial)

end Live

/-- The members of a request leave the queue going as calls of the queue do. An `exec` made by `push`
reports no exception, for its callback is delayed. -/
structure Hooks.Lively (Own : Owner ρ φ η ε) (P : Event ρ φ η → List (Event ρ φ η) → Prop) (h : Hooks ρ φ η ε) : Prop
    extends h.Ok Own where
  liveExec : ∀ s req F, Wf s → Ctl s → s.requests.head? = some req → s.locked = 0 → s.Started req → Pushed P F s →
    (Along P s.trace → s.async req = true ∨ s.requests.tail = []) →
    wp (h.exec req) (fun o t => Live Own P F True s o t ∧ (s.async req = false → o ≠ .halt .thrown)) s
  liveCancel : ∀ s req err F, Wf s → Ctl s → Tidy P F s → s.requests.head? = some req → 0 < s.locked ∨ F = [] →
    wp (h.cancel req err) (Live Own P F (Going P F s) s) s
  liveNotify : ∀ s req err F, Wf s → Ctl s → Tidy P F s → wp (h.notify req err) (Live Own P F (Going P F s) s) s
  liveCall : ∀ s f F, Wf s → Ctl s → Tidy P F s → wp (h.call f) (Live Own P F (Going P F s) s) s
  liveUser : ∀ s F, Wf s → Ctl s → Tidy P F s → wp h.user (Live Own P F (Going P F s) s) s

theorem Hooks.Lively.spent (own : ∀ s t, Own.Moves s t → Wf s → Wf t) : (Hooks.spent : Hooks ρ φ η ε).Lively Own P where
  toOk := .spent own
  liveExec _ _ _ _ _ _ _ _ _ _ := ⟨.halted .refl (by decide), fun _ => by simp [Hooks.spent, Exec.halt]⟩
  liveCancel _ _ _ _ _ _ _ _ _ := .halted .refl (by decide)
  liveNotify _ _ _ _ _ _ _ := .halted .refl (by decide)
  liveCall _ _ _ _ _ _ := .halted .refl (by decide)
  liveUser _ _ _ _ _ := .halted .refl (by decide)

section Frames
variable {s t : World ρ φ η ε}

theorem Tidy.frame (tidy : Tidy P F s) (earlier : Along P t.trace → Along P s.trace)
    (requests : t.requests = s.requests) (async : t.async = s.async) (active : t.active = s.active)
    (execs : ∀ req, t.Started req ↔ s.Started req) : Tidy P F t where
  async right req member := by
    rw [async, execs]
    exact tidy.async (earlier right) req (requests ▸ member)
  awaited right req atFront started := by
    rw [active]
    exact tidy.awaited (earlier right) req (requests ▸ atFront) ((execs req).mp started)

theorem Tidy.log (tidy : Tidy P F s) {e : Event ρ φ η} (plain : e.Plain) : Tidy P F (s.log e) :=
  tidy.frame And.right rfl rfl rfl (s.log_started plain)

/-- Where nothing has been executed, everything has been pushed. -/
theorem Pushed.fresh (pushed : Pushed P F s) (fresh : s.Fresh) (right : Along P s.trace) :
    ∀ req ∈ s.requests, s.async req = true := fun req member =>
  (pushed right req member).resolve_right fun executing => fresh req member executing.2

/-- Behind a removed front everything has been pushed, and nothing was executed. -/
theorem Pushed.tail (pushed : Pushed P F s) (wf : Wf s) (atFront : s.requests.head? = some check)
    (earlier : Along P t.trace → Along P s.trace) (requests : t.requests = s.requests.tail) (flags : t.async = s.async)
    (execs : ∀ req, t.Started req ↔ s.Started req) : Tidy P G t where
  async right req member := by
    rw [requests] at member
    rw [flags]
    refine .inl ((pushed (earlier right) req (List.mem_of_mem_tail member)).resolve_right fun executing => ?_)
    exact wf.tail_fresh atFront req member executing.2
  awaited _ req first started := by
    have member : req ∈ s.requests.tail := requests ▸ List.mem_of_mem_head? first
    exact (wf.tail_fresh atFront req member ((execs req).mp started)).elim

omit [DecidableEq ρ] in
theorem Going.frame (going : Going P F s) (earlier : Along P t.trace → Along P s.trace) (locked : t.locked = s.locked)
    (requests : t.requests = s.requests) (active : t.active = s.active) (delayed : t.delayed = s.delayed) :
    Going P F t := by
  intro right
  simpa only [World.splitPending, locked, requests, active, delayed] using going (earlier right)

omit [DecidableEq ρ] in
theorem going_of_empty (empty : s.requests = []) : Going P F s := fun _ => .inr (.inr (by simp [empty]))

omit [DecidableEq ρ] in
private theorem going_of_locked (held : 0 < s.locked) : Going P F s := fun _ => .inl held

/-- A call whose exceptions and lock are already accounted for. -/
theorem wp_live {given : Prop} {c : Exec (World ρ φ η ε) α} {m : World ρ φ η ε} (post : wp c (Post Own s) m)
    (live : wp c (fun o t => o.Returned → Tidy P F t ∧ (given → Going P F t)) m) : wp c (Live Own P F given s) m :=
  ⟨post, fun returned => (live returned).1, fun returned => (live returned).2⟩

/-- Under a lock only tidiness is at stake. -/
theorem Post.live {given : Prop} (post : Post Own s o t) (held : 0 < s.locked) (tidy : o.Returned → Tidy P F t) :
    Live Own P F given s o t :=
  ⟨post, tidy, fun returned _ => going_of_locked ((post.back returned).locked ▸ held)⟩

end Frames

namespace Queue
variable {s : World ρ φ η ε} {h : Hooks ρ φ η ε} {req : ρ}

theorem exec_live (ok : h.Lively Own P) (own : s.locked = 0) {m : World ρ φ η ε} (path : Path Own s m) (wf : Wf m)
    (ctl : Ctl m) (atFront : m.requests.head? = some req) (free : m.locked = 0) (started : m.Started req)
    (async : Pushed P F m) (alone : Along P m.trace → m.async req = true ∨ m.requests.tail = []) :
    wp (h.exec req) (fun o t => Live Own P F True s o t ∧ (m.async req = false → o ≠ .halt .thrown)) m := by
  have live := ok.liveExec m req F wf ctl atFront free started async alone
  exact ⟨⟨exec_post ok.toOk own path wf ctl atFront free started, live.1.tidy, live.1.going⟩, live.2⟩

private theorem resume_live (ok : h.Lively Own P) (wf : Wf s) (ctl : Ctl s) (tidy : Tidy P F s)
    (fresh : s.locked = 0 → s.Fresh) : wp (resume h) (Live Own P F True s) s := by
  simp only [resume, wp_bind, wp_get, next_done]
  split
  · rename_i empty
    exact ⟨.refl ctl, fun _ => tidy, fun _ _ => going_of_empty empty⟩
  · rename_i req rest requests
    have atFront : s.requests.head? = some req := by rw [requests, List.head?_cons]
    rw [wp_when]
    refine ⟨fun free => ?_, fun held => ?_⟩
    · have step : Step Own s (s.log (.exec req s.requests)) := .exec s req atFront free (fresh free)
      simp only [start, wp_bind, wp_modify, next_done]
      have started : (s.log (.exec req s.requests)).Started req := by simp [World.Started, World.log]
      have flags (right : Along P (s.log (.exec req s.requests)).trace) : ∀ other ∈ s.requests, s.async other = true :=
        tidy.async.fresh (fresh free) right.2
      have executed := exec_live (F := F) ok free (.one step) (step.wf ok.own wf) (Ctl.exec ctl free req) atFront free
        started (fun right other member => .inl (flags right other member))
        fun right => .inl (flags right req (List.mem_of_mem_head? atFront))
      exact executed.1
    · exact ⟨.refl ctl, fun _ => tidy, fun _ _ => going_of_locked (Nat.pos_of_ne_zero held)⟩

private theorem pushed_tidy (tidy : Tidy P F s) (req : ρ) : Tidy P F ((s.enqueue req).setAsync req true) := by
  refine ⟨fun right other member => ?_, fun right other atFront started => ?_⟩
  · by_cases same : other = req
    · exact .inl (by simp [World.setAsync, same])
    · have old : other ∈ s.requests := by
        simpa [World.enqueue, World.log, World.setAsync, same] using member
      refine (tidy.async right.2 other old).imp (fun flag => ?_) fun executing => ⟨executing.1, ?_⟩
      · simpa [World.setAsync, World.enqueue, World.log, same] using flag
      · simpa [World.Started, World.setAsync, World.enqueue, World.log, Ne.symm same] using executing.2
  · have member : other ∈ (s.enqueue req).requests := List.mem_of_mem_head? atFront
    have calm := s.enqueue_calm member started
    obtain ⟨first, rest, requests⟩ := List.exists_cons_of_ne_nil (List.ne_nil_of_mem calm.1)
    change (s.requests ++ [req]).head? = some other at atFront
    exact tidy.awaited right.2 other (by simpa [requests] using atFront) calm.2

/-- The request counts as pushed when its `exec` is back. -/
private theorem executed_tidy {t : World ρ φ η ε} (tidy : Tidy P (.push req :: F) t) :
    Tidy P F (t.setAsync req true) := by
  refine ⟨fun right other member => ?_, fun right other atFront started => ?_⟩
  · by_cases same : other = req
    · exact .inl (by simp [World.setAsync, same])
    · refine (tidy.async right other member).imp (fun flag => ?_) fun executing => ⟨?_, executing.2⟩
      · simpa [World.setAsync, same] using flag
      · simpa [same] using executing.1
  · exact (tidy.awaited right other atFront started).imp id fun handled => by simpa using handled

section

variable (ok : h.Lively Own P)

include ok

/-- `push` executes the request of an empty free queue, and adds to a queue that is going otherwise. -/
theorem push_live (wf : Wf s) (ctl : Ctl s) (tidy : Tidy P F s)
    (moved : Own.Moves s (s.enqueue req)) : wp (push h req) (Live Own P F (Going P F s) s) s := by
  refine wp_live (push_post ok.toOk wf ctl moved) ?_
  have added := enqueue_post ctl (show Own.Moves s ({ s with owner := s.owner }.enqueue req) from moved)
  have wf' := added.wf ok.own wf
  simp only [push, pushed, wp_bind, wp_modify, wp_get, next_done, wp_when]
  refine ⟨?_, fun other => ?_⟩
  · rintro ⟨single, free⟩
    have empty : s.requests = [] := by
      simpa [World.enqueue, World.log, World.setAsync] using single
    have only : (s.enqueue req).requests = [req] := by
      simp [World.enqueue, World.log, World.setAsync, empty]
    have atFront : (s.enqueue req).requests.head? = some req := by rw [only, List.head?_cons]
    have fresh : (s.enqueue req).Fresh := by
      intro other member
      rw [only, List.mem_singleton] at member
      exact member ▸ s.enqueue_unstarted req
    have step : Step Own (s.enqueue req) ((s.enqueue req).log (.exec req (s.enqueue req).requests)) :=
      .exec _ req atFront free fresh
    have started : ((s.enqueue req).log (.exec req (s.enqueue req).requests)).Started req := by
      simp [World.Started, World.log]
    have executing : Pushed P (.push req :: F) ((s.enqueue req).log (.exec req (s.enqueue req).requests)) := by
      intro _ other member
      obtain rfl : other = req := by simpa [World.log, only] using member
      exact .inr ⟨List.mem_cons_self, started⟩
    have alone : (s.enqueue req).requests.tail = [] := by rw [only, List.tail_cons]
    have executed := exec_live ok free (.one step) (step.wf ok.own wf') (Ctl.exec added.ctl free req) atFront
      free started executing fun _ => .inr alone
    simp only [start, wp_bind, wp_modify, next_done]
    refine wp_mono executed ?_
    rintro (_ | why) t ⟨live, quiet⟩
    · rw [next_done, wp_modify]
      intro _
      refine ⟨executed_tidy (live.tidy trivial), fun _ right => ?_⟩
      exact (live.going trivial trivial right).imp_right (.imp_right fun front other atFront =>
        (front other atFront).imp_right fun handled => by simpa using handled)
    · rw [next_halt]
      intro returned
      have flag : ((s.enqueue req).log (.exec req (s.enqueue req).requests)).async req = false := by
        simp [World.enqueue, World.log, World.setAsync]
      exact (quiet flag (congrArg Outcome.halt returned)).elim
  · intro _
    refine ⟨pushed_tidy tidy req, fun going right => ?_⟩
    rcases going right.2 with held | split | awaited
    · exact .inl held
    · exact .inr (.inl split)
    · cases requests : s.requests with
      | nil =>
        refine .inl (Nat.pos_of_ne_zero fun free => other ⟨?_, free⟩)
        simp [World.enqueue, World.log, World.setAsync, requests]
      | cons first rest =>
        refine .inr (.inr fun front atFront => awaited front ?_)
        change front ∈ (s.requests ++ [req]).head? at atFront
        simpa [requests] using atFront

private theorem release_live (wf : Wf s) (fresh : s.Fresh) (ctl : Ctl s.unlock)
    (tidy : Tidy P F s) : wp (release h) (Live Own P F True s.unlock) s := by
  refine wp_live (release_post ok.toOk wf fresh ctl) ?_
  let entered : World ρ φ η ε := { s.unlock with resumeRecursion := s.unlock.resumeRecursion + 1 }
  have wf' : Wf entered := { wf with }
  have ctl' : Ctl entered := { ctl with }
  have resumed : wp (resume h) (Live Own P F True entered) entered :=
    resume_live ok wf' ctl' (tidy.frame id rfl rfl rfl fun _ => Iff.rfl) fun _ => fresh
  simp only [release, wp_bind, wp_modify, next_done]
  refine wp_mono resumed ?_
  rintro (_ | why) t live
  · refine fun _ => ⟨(live.tidy trivial).frame id rfl rfl rfl fun _ => Iff.rfl, fun _ => ?_⟩
    exact (live.going trivial trivial).frame id rfl rfl rfl rfl
  · exact fun returned => ⟨live.tidy returned, fun _ => live.going returned trivial⟩

/-- The callback of a removed request runs under the lock, and then the queue goes on. -/
theorem finish_live (wf : Wf s) (ctl : Ctl s) (f : φ) (atFront : s.requests.head? = some check)
    (pushed : Pushed P F s) (fits : Own.Fits s check f) (immediate : s.async check = true) :
    wp (scopeGuard (h.call f) (release h)) (Live Own P G True s)
      ((((s.log (.done check s.requests)).retire check).lock).log (.finish check f s.finalizedRequests)) := by
  refine wp_live (finish_post ok.toOk wf ctl f atFront fits immediate) ?_
  have step : Step Own s _ := .finish s check f atFront fits immediate
  have entered := Entered.finish wf ctl f atFront
  have wf' := step.wf ok.own wf
  have tidy : Tidy P G ((((s.log (.done check s.requests)).retire check).lock).log
      (.finish check f s.finalizedRequests)) := pushed.tail wf atFront (fun right => right.2.2) rfl rfl fun _ => Iff.rfl
  simp only [scopeGuard, wp_bind]
  refine wp_attempt_live (ok.liveCall _ f G wf' entered.ctl tidy) (fun kept t live => ?_) fun why t final path => ?_
  · obtain ⟨fresh, _, unlocked⟩ := entered.leave ctl (live.back trivial)
    rw [next_done, wp_bind]
    refine wp_mono (release_live ok (live.wf ok.own wf') fresh unlocked (live.tidy trivial)) ?_
    rintro (_ | why) u after
    · rw [next_done, wp_when]
      exact ⟨fun _ _ => ⟨after.tidy trivial, after.going trivial⟩, fun _ _ => ⟨after.tidy trivial, after.going trivial⟩⟩
    · exact fun returned => ⟨after.tidy returned, after.going returned⟩
  · exact fun returned => (final returned).elim

/-- `done` makes the queue going, except that inside the `push` of its request it leaves alone what waits. -/
theorem done_live (wf : Wf s) (ctl : Ctl s) {f : φ}
    (fits : s.requests.head? = some check → Own.Fits s check f)
    (entry : s.requests.head? = some check ∨ Own.Lost s check) (pushed : Pushed P F s)
    (alone : Along P s.trace → s.async check = true ∨ 0 < s.locked ∨ SPLIT_RECURSION < s.resumeRecursion ∨
      s.requests.tail = []) :
    wp (done h check f) (Live Own P G True s) s := by
  refine wp_live (done_post ok.toOk wf ctl fits entry) ?_
  simp only [done, wp_bind, wp_modify, wp_get, next_done, wp_assert]
  refine ⟨fun atFront => ?_, fun _ returned => by cases returned⟩
  have tidy (split : Bool) : Tidy P G (((s.log (.done check s.requests)).retire check).park check f split) :=
    pushed.tail wf atFront And.right rfl rfl fun _ => Iff.rfl
  simp only [next_done, complete, wp_bind, wp_get]
  split
  · rw [wp_modify]
    refine fun _ => ⟨tidy true, fun _ _ => .inr (.inl ?_)⟩
    simp [World.splitPending, World.park, World.delay]
  · rename_i shallow
    split
    · rename_i immediate
      have finished := finish_live (G := G) ok wf ctl f atFront pushed (fits atFront) immediate
      exact fun returned => ⟨finished.tidy returned, finished.going returned⟩
    · rename_i delayed
      rw [wp_modify]
      refine fun _ => ⟨tidy false, fun _ right => ?_⟩
      rcases alone right.2 with flag | held | deep | last
      · exact absurd flag delayed
      · exact .inl held
      · exact absurd deep shallow
      · exact going_of_empty last right

private theorem flushFinalized_live (budget : ℕ) : ∀ s, Wf s → Ctl s → Tidy P F s → 0 < s.locked →
    wp (flushFinalized h budget) (Live Own P F (Going P F s) s) s := by
  induction budget with
  | zero => exact fun s _ _ _ _ => .halted .refl (by decide)
  | succ budget ih =>
    intro s wf ctl tidy held
    simp only [flushFinalized]
    rw [wp_get_bind]
    split
    · exact .refl ctl tidy
    · rename_i cur rest parked
      have step : Step Own s (s.flush cur .canceled) := .flush s cur _ (by rw [parked, List.head?_cons])
      have flushed : Live Own P F (Going P F s) s (.done () : Outcome Unit) (s.flush cur .canceled) :=
        Post.live ⟨.one step, fun _ => .frame ctl rfl rfl rfl fun _ => Iff.rfl⟩ held
          fun _ => tidy.frame And.right rfl rfl rfl fun _ => Iff.rfl
      have wf' := flushed.wf ok.own wf
      have notified := ok.liveNotify _ cur .canceled F wf' flushed.ctl (flushed.tidy trivial)
      rw [wp_modify_bind]
      refine wp_mono (wp_bind_live (wp_kept_live notified) fun kept t live => ?_) fun _ _ live => flushed.trans live
      have locked : 0 < t.locked := by rw [(live.back trivial).locked]; exact held
      refine wp_bind_live (ih t (live.wf ok.own wf') live.ctl (live.tidy trivial) locked) ?_
      exact fun later u last => .refl last.ctl (last.tidy trivial)

private theorem cancelRequests_live (budget : ℕ) : ∀ s, Wf s → Ctl s → Tidy P F s → 0 < s.locked →
    wp (cancelRequests h budget) (Live Own P F (Going P F s) s) s := by
  induction budget with
  | zero => exact fun s _ _ _ _ => .halted .refl (by decide)
  | succ budget ih =>
    intro s wf ctl tidy held
    simp only [cancelRequests]
    rw [wp_get_bind]
    split
    · exact .halted .refl (by decide)
    · rename_i cur rest requests
      have atFront : s.requests.head? = some cur := by rw [requests, List.head?_cons]
      have logged : Live Own P F (Going P F s) s (.done () : Outcome Unit) (s.log (.cancel cur)) :=
        Post.live ⟨.one (.cancel s cur atFront), fun _ => .log ctl trivial⟩ held fun _ => tidy.log trivial
      have wf' := logged.wf ok.own wf
      have canceled := ok.liveCancel _ cur .canceled F wf' logged.ctl (logged.tidy trivial) atFront (.inl held)
      rw [wp_modify_bind]
      refine wp_mono (wp_bind_live (wp_kept_live canceled) fun kept t live => ?_) fun _ _ live => logged.trans live
      have locked : 0 < t.locked := by rw [(live.back trivial).locked]; exact held
      simp only [wp_bind, wp_get, next_done, wp_assert]
      refine ⟨fun _ => ?_, fun _ => .halted .refl (by decide)⟩
      split
      · refine wp_bind_live (ih t (live.wf ok.own wf') live.ctl (live.tidy trivial) locked) ?_
        exact fun later u last => .refl last.ctl (last.tidy trivial)
      · exact .refl live.ctl (live.tidy trivial)

end

/-- A pre or post step of a cancel, which is made under the lock; it may close a call that was open. -/
def LiveSpec (Own : Owner ρ φ η ε) (P : Event ρ φ η → List (Event ρ φ η) → Prop) (G F : List (Frame ρ))
    (m : Exec (World ρ φ η ε) Unit) : Prop :=
  ∀ s, Wf s → Ctl s → Tidy P G s → 0 < s.locked → wp m (Live Own P F (Going P G s) s) s

private theorem cancelPending_live (ok : h.Lively Own P) {fpre : Exec (World ρ φ η ε) Unit}
    (pre : LiveSpec Own P G F fpre) (wf : Wf s) (ctl : Ctl s) (tidy : Tidy P G s) (held : 0 < s.locked) :
    wp (cancelPending h fpre) (Live Own P F (Going P G s) s) s := by
  simp only [cancelPending]
  rw [wp_bind]
  refine wp_mono (wp_and (flushFinalized_live ok h.budget s wf ctl tidy held)
    (flushFinalized_post ok.toOk h.budget s wf ctl)) ?_
  rintro (flushed | why) m ⟨first, quiet⟩
  · have wf₁ := first.wf ok.own wf
    have held₁ : 0 < m.locked := by rw [(first.back trivial).locked]; exact held
    rw [next_done]
    refine wp_mono (Q := Live Own P F (Going P G m) m) ?_ fun _ _ live => first.trans live
    refine wp_bind_live (wp_kept_live (pre m wf₁ first.ctl (first.tidy trivial) held₁)) fun preKept m' second => ?_
    have wf₂ := second.wf ok.own wf₁
    have held₂ : 0 < m'.locked := by rw [(second.back trivial).locked]; exact held₁
    refine wp_bind_live ?_ fun canceled u third => .refl third.ctl (third.tidy trivial)
    simp only [cancelWaiting, wp_bind, wp_get, next_done]
    split
    · exact cancelRequests_live ok h.budget m' wf₂ second.ctl (second.tidy trivial) held₂
    · exact .refl second.ctl (second.tidy trivial)
  · exact .halted first.path fun thrown => quiet.kept (congrArg Outcome.halt thrown)

private theorem cancelLocked_live (ok : h.Lively Own P) {fpre fpost : Exec (World ρ φ η ε) Unit}
    (pre : LiveSpec Own P G F fpre) (post : LiveSpec Own P F F fpost) (gen : ℕ) (wf : Wf s) (ctl : Ctl s)
    (tidy : Tidy P G s) (held : 0 < s.locked) :
    wp (cancelLocked h fpre fpost gen) (Live Own P F (Going P G s) s) s := by
  simp only [cancelLocked]
  refine wp_bind_live (cancelPending_live ok pre wf ctl tidy held) fun kept m first => ?_
  have held' : 0 < m.locked := by rw [(first.back trivial).locked]; exact held
  refine wp_bind_live ?_ fun postKept v last => .refl last.ctl (last.tidy trivial)
  simp only [postCancel]
  rw [wp_get_bind]
  split
  · refine wp_kept_live
      (wp_bind_live (post m (first.wf ok.own wf) first.ctl (first.tidy trivial) held') fun _ v last => ?_)
    exact ⟨⟨.one (.control v _ _ _ _ _ (Nat.le_succ _)), fun _ => .frame last.ctl rfl rfl rfl fun _ => Iff.rfl⟩,
      fun _ => (last.tidy trivial).frame id rfl rfl rfl fun _ => Iff.rfl, fun _ going => going.frame id rfl rfl rfl rfl⟩
  · exact .refl first.ctl (first.tidy trivial)

/-- `cancel` makes the queue going. -/
theorem cancel_live (ok : h.Lively Own P) {fpre fpost : Exec (World ρ φ η ε) Unit} (pre : Spec Own fpre)
    (post : Spec Own fpost) (livePre : LiveSpec Own P G F fpre) (livePost : LiveSpec Own P F F fpost) {till : Option ρ}
    (member : ∀ req, till = some req → req ∈ s.requests) (wf : Wf s) (tidy : Tidy P G s) :
    wp (cancel h fpre fpost till) (Live Own P F True s) s := by
  refine wp_live (cancel_post ok.toOk member wf (fun _ => pre _) (fun _ wf ctl _ => post _ wf ctl)) ?_
  have wf' := beginCancel_wf wf till
  have ctl' := beginCancel_ctl member
  have tidy' : Tidy P G (s.beginCancel till) := tidy.frame id rfl rfl rfl fun _ => Iff.rfl
  have cleared := cancelLocked_post ok.toOk s.cancelGen wf' ctl' (Nat.succ_pos _) (fun _ => pre _)
    (fun _ wf ctl _ => post _ wf ctl)
  have kept := cancelLocked_live ok livePre livePost s.cancelGen wf' ctl' tidy' (Nat.succ_pos _)
  simp only [cancel, wp_bind, wp_modify, wp_get, next_done]
  refine wp_mono (wp_and cleared kept) ?_
  rintro (kept | why) t ⟨cleared, live⟩
  · have ended := endCancel_post cleared
    have resumed := resume_live ok (ended.wf ok.own wf) ended.ctl
      ((live.tidy trivial).frame id rfl rfl rfl fun _ => Iff.rfl) fun _ => cleared.fresh trivial
    simp only [wp_bind, wp_modify, next_done]
    refine wp_mono resumed ?_
    rintro (_ | why) u last
    · rw [next_done, wp_when]
      exact ⟨fun _ _ => ⟨last.tidy trivial, last.going trivial⟩, fun _ _ => ⟨last.tidy trivial, last.going trivial⟩⟩
    · exact fun returned => ⟨last.tidy returned, last.going returned⟩
  · exact fun returned => (cleared.kept (congrArg Outcome.halt returned)).elim

end Queue

/-- An exception that leaves a split callback before its `resume()` leaves a queue that is empty,
whose front has been executed, or for which another split callback is scheduled. -/
def SkipGoingAt : Event ρ φ η → List (Event ρ φ η) → Prop
  | .skip requests split, before => split = true ∨ ∀ req ∈ requests.head?, 0 < execs before req
  | _, _ => True

namespace Queue
variable {s : World ρ φ η ε} {h : Hooks ρ φ η ε}
  (skips : ∀ e before, P e before → SkipGoingAt e before)
include skips

/-- The callback of a split completion makes the queue going unless its closure throws; then the
queue is as the closure left it. -/
theorem splitCallback_live (ok : h.Lively Own P) (f : φ) (wf : Wf s) (ctl : Ctl s) (tidy : Tidy P [] s)
    (free : s.locked = 0) : wp (splitCallback h f) (fun o t => o.Returned → Tidy P [] t ∧ Going P [] t) s := by
  simp only [splitCallback, wp_bind]
  refine wp_attempt_live (ok.liveCall s f [] wf ctl tidy) (fun failed t live => ?_) fun why t final path => ?_
  · have tidy' := live.tidy trivial
    have free' : t.locked = 0 := (live.back trivial).locked.trans free
    rw [next_done]
    split
    · rw [wp_modify_bind, wp_halt]
      refine fun _ => ⟨tidy'.log trivial, fun right => .inr ?_⟩
      rcases skips _ _ right.1 with split | executed
      · exact .inl split
      · exact .inr fun req atFront => tidy'.awaited right.2 req atFront (executed req atFront)
    · have ctl' : Ctl (t.log (.resume t.requests)) := (Back.log (e := .resume t.requests) live.ctl trivial).ctl
      have wf' : Wf (t.log (.resume t.requests)) := (live.wf ok.own wf).log trivial
      simp only [wp_bind, wp_modify, next_done, resume, wp_get]
      split
      · rename_i empty
        exact fun _ => ⟨tidy'.log trivial, going_of_empty empty⟩
      · rename_i req rest requests
        have atFront : t.requests.head? = some req := by
          rw [show t.requests = req :: rest from requests, List.head?_cons]
        rw [wp_when]
        refine ⟨fun _ => ?_, fun held => (held free').elim⟩
        simp only [start, wp_bind, wp_modify, next_done]
        have started : ((t.log (.resume t.requests)).log (.exec req t.requests)).Started req := by
          simp [World.Started, World.log]
        have flags (right : Along P ((t.log (.resume t.requests)).log (.exec req t.requests)).trace) :
            ∀ other ∈ t.requests, t.async other = true := fun other member =>
          (tidy'.async right.2.2 other member).resolve_right fun executing => by cases executing.1
        have executed := exec_live (F := []) ok free' (.one (.restart t req atFront free')) (wf'.exec atFront)
          (Ctl.exec ctl' free' req) atFront free' started (fun right other member => .inl (flags right other member))
          fun right => .inl (flags right req (List.mem_of_mem_head? atFront))
        exact fun returned => ⟨executed.1.tidy returned, executed.1.going returned trivial⟩
  · exact fun returned => (final returned).elim

theorem fire_live (ok : h.Lively Own P) (wf : Wf s) (ctl : Ctl s) (tidy : Tidy P [] s) (free : s.locked = 0)
    (going : Going P [] s) : wp (fire h) (fun o t => o.Returned → Tidy P [] t ∧ Going P [] t) s := by
  simp only [fire]
  rw [wp_get_bind]
  split
  · exact fun _ => ⟨tidy, going⟩
  · rename_i check f split rest next
    rw [wp_bind, wp_assert]
    refine ⟨fun atFront => ?_, fun _ returned => by cases returned⟩
    have step : Step Own s (s.unpark check f) := .unpark s check f split rest next atFront
    have plain : (Event.fire check f : Event ρ φ η).Plain := trivial
    have ctl' : Ctl (s.unpark check f) := ctl.frame rfl rfl rfl (s.log_started plain)
    have tidy' : Tidy P [] (s.unpark check f) := tidy.frame And.right rfl rfl rfl (s.log_started plain)
    rw [next_done, wp_modify_bind]
    split
    · exact splitCallback_live skips ok f (step.wf ok.own wf) ctl' tidy' free
    · rename_i last
      have called := ok.liveCall _ f [] (step.wf ok.own wf) ctl' tidy'
      refine fun returned => ⟨called.tidy returned, called.going returned fun right => ?_⟩
      rcases going right.2 with held | pending | awaited
      · exact .inl held
      · refine .inr (.inl ?_)
        change s.delayed.tail.any Delayed.isSplit = true
        simpa [World.splitPending, next, last] using pending
      · exact .inr (.inr awaited)
  · rename_i req err rest next
    obtain ⟨atFront, started⟩ := wf.retry req err (next ▸ List.mem_cons_self ..)
    have step : Step Own s { s with delayed := rest } := .retry s req err rest next
    have canceled := ok.liveCancel { s with delayed := rest } req err [] (step.wf ok.own wf)
      (ctl.frame rfl rfl rfl fun _ => Iff.rfl) (tidy.frame id rfl rfl rfl fun _ => Iff.rfl) atFront (.inr rfl)
    rw [wp_modify_bind]
    refine fun returned => ⟨canceled.tidy returned, canceled.going returned fun right => ?_⟩
    rcases going right with held | pending | awaited
    · exact .inl held
    · refine .inr (.inl ?_)
      simpa [World.splitPending, next] using pending
    · exact .inr (.inr awaited)

end Queue

end UniEvent
