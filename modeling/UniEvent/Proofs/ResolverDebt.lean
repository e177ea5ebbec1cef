import UniEvent.Proofs.ResolverMoves

/-! # Workers that are owed a request

While requests wait, a worker without a request is one whose last request is being completed: the guard of
that completion will look at the queue. `Owes W` says that only the workers in `W` are in this situation. The
guard settles the debt of its worker, unless an exception leaves the loop over the queue.
-/

namespace UniEvent.Resolver

open Program Program.Exec

variable {s t : State} {h : Hooks} {W : ℕ → Prop} {worker : Option ℕ} {m : State} {req : Req} {w : ℕ} {res : Result}

/-- While requests wait, all workers exist and only those in `W` have no request. -/
def Owes (W : ℕ → Prop) (s : State) : Prop :=
  s.queue ≠ [] → s.size = s.cfg.workers ∧ ∀ w < s.size, (s.workers w).request = none → W w

/-- An exception that leaves the loop over the queue leaves no request behind. -/
def LeftAt : Event → List Event → Prop
  | .left queue, _ => queue = []
  | _, _ => True

instance (e : Event) (before : List Event) : Decidable (LeftAt e before) := by
  apply Event.casesOn (motive := fun e => Decidable (LeftAt e before)) <;> intros <;> unfold LeftAt <;> infer_instance

/-- The debt in a run that is clean and whose loops are not left early. -/
def Debt (W : ℕ → Prop) (s : State) : Prop := Clean s → Along LeftAt s.trace → Owes W s

/-- What every move keeps. -/
structure Sound (s : State) : Prop where
  bounded : Bounded s
  placed : Clean s → Placed s
  limit : s.size ≤ s.cfg.workers

/-! ### Moves -/

/-- At most the given worker has lost its request, and no request waits that did not wait before. -/
structure Frees (worker : Option ℕ) (s t : State) : Prop where
  size : t.size = s.size
  cfg : t.cfg = s.cfg
  queue : s.queue = [] → t.queue = []
  slots : ∀ w, (t.workers w).request = none → (s.workers w).request = none ∨ worker = some w

theorem Owes.frees (owes : Owes W s) (frees : Frees worker s t) : Owes (fun w => W w ∨ worker = some w) t := by
  intro waiting
  obtain ⟨size, busy⟩ := owes fun empty => waiting (frees.queue empty)
  rw [frees.size, frees.cfg]
  refine ⟨size, fun w bound free => ?_⟩
  exact (frees.slots w free).imp_left (busy w bound)

theorem Owes.same (owes : Owes W s) (size : t.size = s.size) (cfg : t.cfg = s.cfg) (queue : t.queue = s.queue)
    (slots : ∀ w, (t.workers w).request = (s.workers w).request) : Owes W t := by
  intro waiting
  rw [size, cfg]
  simpa only [slots] using owes (queue ▸ waiting)

theorem Owes.mono {W' : ℕ → Prop} (owes : Owes W s) (more : ∀ w, W w → W' w) : Owes W' s := fun waiting =>
  (owes waiting).imp_right fun busy w bound free => more w (busy w bound free)

theorem Owes.empty (queue : s.queue = []) : Owes W s := fun waiting => absurd queue waiting

private theorem cancelWorker_frees (w : ℕ) (s : State) : Frees (some w) s (s.cancelWorker w) := by
  rw [State.cancelWorker]
  split
  · exact ⟨rfl, rfl, fun empty => empty, fun _ free => .inl free⟩
  · refine ⟨rfl, rfl, fun empty => empty, fun w' free => ?_⟩
    by_cases self : w' = w
    · exact .inr (self ▸ rfl)
    · exact .inl (by simpa [self, State.setWorker, State.setRequest] using free)

private theorem release_frees (req : Req) (s : State) : Frees (s.requests req).worker s (s.release req) := by
  rw [State.release]
  split
  · rename_i w worker
    exact worker ▸ cancelWorker_frees w s
  · split
    · exact ⟨rfl, rfl, fun empty => by simp [empty], fun _ free => .inl free⟩
    · exact ⟨rfl, rfl, fun empty => empty, fun _ free => .inl free⟩

theorem retire_frees (req : Req) (res : Result) (s : State) : Frees (s.requests req).worker s (s.retire req res) := by
  let m : State := s.disarm req
  have worker : (m.requests req).worker = (s.requests req).worker :=
    setRequest_field (s := s) Request.worker (by rfl) req
  have released := release_frees req m
  obtain ⟨cache, trace, same⟩ := store_eq req res (m.release req)
  have stored : (s.retire req res).size = (m.release req).size ∧ (s.retire req res).cfg = (m.release req).cfg ∧
      (s.retire req res).queue = (m.release req).queue ∧ (s.retire req res).workers = (m.release req).workers := by
    simp only [State.retire]
    change ((m.release req).store req res).size = _ ∧ ((m.release req).store req res).cfg = _ ∧
      ((m.release req).store req res).queue = _ ∧ ((m.release req).store req res).workers = _
    rw [same]
    exact ⟨rfl, rfl, rfl, rfl⟩
  obtain ⟨size, cfg, queue, workers⟩ := stored
  refine ⟨size.trans released.size, cfg.trans released.cfg, fun empty => queue.trans (released.queue empty),
    fun w free => ?_⟩
  rw [workers] at free
  exact worker ▸ released.slots w free

/-- A submission leaves no worker idle for a request that waits. -/
theorem Enter.owes (enter : Enter s t) (limit : s.size ≤ s.cfg.workers) (owes : Owes W s) : Owes W t := by
  cases enter with
  | frame | expire => exact owes.same rfl rfl rfl fun _ => rfl
  | postpone req query addr =>
    obtain ⟨size, cfg, queue, _, _, workers⟩ := (s.submit req query).postpone_frame req addr
    exact (owes.same (t := s.submit req query) rfl rfl rfl fun _ => rfl).same size cfg queue fun w => by rw [workers]
  | start req query w reply _ empty => exact .empty ((State.launch_frame ..).2.2.1.trans empty)
  | grow req query reply _ empty => exact .empty ((State.launch_frame ..).2.2.1.trans empty)
  | enqueue req query _ full =>
    intro _
    obtain ⟨size, cfg, _, _, _, workers⟩ := (s.submit req query).enqueue_frame req
    rw [size, cfg, workers]
    by_cases empty : s.queue = []
    · obtain ⟨busy, large⟩ := full empty
      exact ⟨le_antisymm limit large, fun w bound free => absurd free (busy w bound)⟩
    · exact owes empty

theorem Enter.limit (enter : Enter s t) (limit : s.size ≤ s.cfg.workers) : t.size ≤ t.cfg.workers := by
  cases enter with
  | frame | expire => exact limit
  | postpone req query addr =>
    obtain ⟨size, cfg, _⟩ := (s.submit req query).postpone_frame req addr
    rw [size, cfg]
    exact limit
  | enqueue req query =>
    obtain ⟨size, cfg, _⟩ := (s.submit req query).enqueue_frame req
    rw [size, cfg]
    exact limit
  | start req query w reply =>
    obtain ⟨size, cfg, _⟩ := ((s.submit req query).log (.start req w)).launch_frame w req reply
    rw [size, cfg]
    exact limit
  | grow req query reply _ _ below =>
    obtain ⟨size, cfg, _⟩ := State.launch_frame s.size req reply
      { (s.submit req query).log (.start req s.size) with size := s.size + 1 }
    rw [size, cfg]
    exact below

theorem Enter.along_owes (path : Relation.ReflTransGen Enter s t) (limit : s.size ≤ s.cfg.workers)
    (owes : Owes W s) : Owes W t := by
  have both : t.size ≤ t.cfg.workers ∧ Owes W t := by
    induction path with
    | refl => exact ⟨limit, owes⟩
    | tail _ enter ih => exact ⟨enter.limit ih.1, enter.owes ih.1 ih.2⟩
  exact both.2

private theorem answered_frees (placed : Placed s) (res : Result) (slot : (s.workers w).request = some req)
    (size : m.size = s.size) (cfg : m.cfg = s.cfg) (queue : m.queue = s.queue)
    (slots : ∀ w, (m.workers w).request = (s.workers w).request)
    (running : (m.requests req).running = (s.requests req).running)
    (worker : (m.requests req).worker = (s.requests req).worker) : Frees (some w) s (m.answered w res) := by
  obtain ⟨runs, names⟩ := placed.slot w req slot
  obtain ⟨moved, _⟩ := answered_retired res ((slots w).trans slot) (running.trans runs) (worker.trans names)
  have retired := retire_frees req res (m.move w req)
  rw [moved]
  refine ⟨retired.size.trans size, retired.cfg.trans cfg, fun empty => retired.queue (queue.trans empty),
    fun w' free => ?_⟩
  rcases retired.slots w' free with before | named
  · by_cases self : w' = w
    · exact .inr (self ▸ rfl)
    · refine .inl ((slots w').symm.trans ?_)
      simpa [State.move, State.setWorker, State.log, self] using before
  · exact .inr (named.symm.trans (worker.trans names)).symm

private theorem finished_frame (req : Req) (res : Result) (s : State) :
    (s.finished req res).size = s.size ∧ (s.finished req res).cfg = s.cfg := by
  rw [State.finished]
  split
  · exact ⟨(retire_frees req res s).size, (retire_frees req res s).cfg⟩
  · exact ⟨rfl, rfl⟩

private theorem answered_frame (w : ℕ) (res : Result) (s : State) :
    (s.answered w res).size = s.size ∧ (s.answered w res).cfg = s.cfg := by
  rw [State.answered]
  split
  · exact ⟨rfl, rfl⟩
  · exact finished_frame _ res _

theorem Step.limit (step : Step s t) (limit : s.size ≤ s.cfg.workers) : t.size ≤ t.cfg.workers := by
  cases step with
  | enter move => exact move.limit limit
  | frame | left | visit | visited | uncache | lost => exact limit
  | finish req res => exact (retire_frees req res s).size ▸ (retire_frees req res s).cfg ▸ limit
  | assign w req reply =>
    obtain ⟨size, cfg, _⟩ := State.launch_frame w req reply
      (s.dequeue req w)
    rw [size, cfg]
    exact limit
  | answer w position key res =>
    obtain ⟨size, cfg⟩ := answered_frame w res (s.take w position key res)
    rw [size, cfg]
    exact limit
  | hit id req addr rest =>
    obtain ⟨size, cfg⟩ := finished_frame req (.ok addr)
      (s.takeDelay req rest)
    rw [size, cfg]
    exact limit
  | reply id w req res rest =>
    obtain ⟨size, cfg⟩ := answered_frame w res
      (s.takeDelay req rest)
    rw [size, cfg]
    exact limit

theorem Step.sound (step : Step s t) (sound : Sound s) : Sound t :=
  ⟨step.bounded sound.bounded, fun clean =>
    step.placed clean sound.bounded (sound.placed (clean.earlier step.older)), step.limit sound.limit⟩

theorem Sound.along (sound : Sound s) (path : Path s t) : Sound t := by
  induction path with
  | refl => exact sound
  | tail _ step ih => exact step.sound ih

/-- A debt after a move is shown from the debt before it. -/
theorem Debt.move {W' : ℕ → Prop} (debt : Debt W s) (older : s.trace <:+ t.trace)
    (move : Clean t → Along LeftAt t.trace → Owes W s → Owes W' t) : Debt W' t :=
  fun clean left => move clean left (debt (clean.earlier older) (left.earlier older))

/-! ### Calls -/

/-- What is back from a call has made no debts, and has settled that of the given worker. -/
structure Pays (worker : Option ℕ) (s t : State) : Prop where
  path : Path s t
  debt : ∀ W, Sound s → Debt (fun x => W x ∨ worker = some x) s → Debt W t

/-- What is back from a call has made no debts. -/
structure Settled (s t : State) : Prop where
  path : Path s t
  debt : ∀ W, Sound s → Debt W s → Debt W t

instance : Std.Refl Settled := ⟨fun _ => ⟨.refl, fun _ _ debt => debt⟩⟩

theorem Settled.pays (settled : Settled s m) (pays : Pays worker m t) : Pays worker s t :=
  ⟨settled.path.trans pays.path, fun W sound debt => pays.debt W (sound.along settled.path) (settled.debt _ sound debt)⟩

theorem wp_pays_after {c : Exec State Unit} {m m' : State} (settled : Settled s m)
    (rest : wp c (Backed (Pays worker) m) m') : wp c (Backed (Pays worker) s) m' :=
  wp_mono rest fun _ _ pays returned => settled.pays (pays returned)

instance : IsTrans State Settled where
  trans _ _ _ first second := ⟨first.path.trans second.path, fun W sound debt =>
    second.debt W (sound.along first.path) (first.debt W sound debt)⟩

/-- A move that changes neither the workers nor the queue. -/
theorem Settled.same (path : Path s t) (size : t.size = s.size) (cfg : t.cfg = s.cfg) (queue : t.queue = s.queue)
    (slots : ∀ w, (t.workers w).request = (s.workers w).request) : Settled s t :=
  ⟨path, fun _ _ debt => debt.move (path_older path) fun _ _ owes => owes.same size cfg queue slots⟩

/-- A request leaves its worker, and then the guard looks after the worker. -/
theorem Pays.settled (step : Step s m) (frees : Sound s → Clean m → Frees worker s m) (pays : Pays worker m t) :
    Settled s t := by
  refine ⟨.head step pays.path, fun W sound debt => pays.debt W (step.sound sound) ?_⟩
  exact debt.move step.older fun clean _ owes => owes.frees (frees sound clean)

/-- The recursive calls settle the debts that they make. -/
structure Hooks.Settles (h : Hooks) : Prop where
  ok : h.Ok
  finish : ∀ req res s, Cause s req res → wp (h.finishResolve req res) (Backed Settled s) s
  user : ∀ s, wp h.user (Backed Settled s) s

private theorem resolve_settled (query : Query) (idle : (s.requests req).running = false) :
    wp (resolve req query) (Backed Settled s) s := by
  refine wp_mono (resolve_entered query idle) fun _ t path _ => ?_
  have steps : Path s t := Relation.ReflTransGen.mono (r := Enter) (p := Step) (fun _ _ => .enter) _ _ path
  exact ⟨steps, fun _ sound debt => debt.move (path_older steps) fun _ _ => Enter.along_owes path sound.limit⟩

theorem lookup_frame (req : Req) (s : State) :
    wp (lookup req) (fun o t => ∃ found cache, o = .done found ∧ t = { s with cache }) s := by
  simp only [lookup]
  rw [wp_get_bind]
  split
  · refine wp_mono (find_searched _) ?_
    rintro o t (⟨rfl, same | expired⟩ | ⟨addr, rfl, same, _⟩)
    · exact ⟨none, s.cache, rfl, same⟩
    · exact ⟨none, _, rfl, expired⟩
    · exact ⟨some addr, s.cache, rfl, same⟩
  · exact ⟨none, s.cache, rfl, rfl⟩

/-- An exception that leaves the loop leaves an empty queue. -/
theorem serve_settled (settles : h.Settles) {addr : AddrInfo} (hit : s.Hit req addr)
    (waiting : s.queue.head? = some req) : wp (serve h req addr) (fun o t =>
      (o = .done () → Settled s t) ∧ (o = .halt .thrown → Path s t ∧ ∀ W, Debt W t)) s := by
  have reached := serve_reached settles.ok hit waiting
  simp only [serve] at reached ⊢
  rw [wp_modify_bind] at reached ⊢
  rw [wp_bind] at reached ⊢
  let m : State := s.setRequest req { s.requests req with useCache := false }
  have uncached : Settled s m := .same (.single (.uncache s req)) rfl rfl rfl fun _ => rfl
  have cause : Cause m req (.ok addr) := by
    obtain ⟨cached, found, same⟩ := hit
    refine .cached addr ⟨cached, ?_, same⟩ waiting
    simpa [m, State.setRequest, Request.key] using found
  have back := wp_attempt_back (settles.finish req _ m cause)
  refine wp_mono (wp_and (wp_and back (wp_attempt_kept _ m)) reached) ?_
  rintro (failed | why) t ⟨⟨back, kept⟩, path⟩
  · rw [next_done, wp_when] at path ⊢
    refine ⟨fun threw => ?_, fun _ => ⟨fun _ => IsTrans.trans _ _ _ uncached (back trivial), (by rintro ⟨⟩)⟩⟩
    rw [wp_modify_bind]
    exact ⟨(by rintro ⟨⟩), fun _ => ⟨path.1 threw, fun _ _ left => .empty left.1⟩⟩
  · refine ⟨(by rintro ⟨⟩), fun same => ?_⟩
    cases same
    exact absurd rfl kept

/-- The worker that takes a request from the queue is not owed one any more. -/
theorem Owes.assign (owes : Owes (fun x => W x ∨ some w = some x) s) (e : Event) (req : Req) (reply : Reply) :
    Owes W (State.launch w req reply { s.log e with queue := s.queue.tail }) := by
  obtain ⟨size, cfg, queue, _⟩ := State.launch_frame w req reply { s.log e with queue := s.queue.tail }
  intro waiting
  rw [queue] at waiting
  obtain ⟨full, busy⟩ := owes fun empty => waiting (by simp [empty])
  rw [size, cfg]
  refine ⟨full, fun x bound free => ?_⟩
  rw [State.launch_slots] at free
  split at free
  · cases free
  · rename_i other
    exact (busy x bound free).resolve_right fun same => other (Option.some.inj same).symm

section

variable (settles : h.Settles)

include settles

/-- The loop gives the free worker a request as long as one waits. -/
theorem drain_pays (w : ℕ) (budget : ℕ) :
    ∀ s : State, s.Freed w → wp (drain h w budget) (Backed (Pays (some w)) s) s := by
  induction budget with
  | zero => exact fun _ _ => nofun
  | succ budget ih =>
    intro s freed
    simp only [drain]
    rw [wp_get_bind]
    split
    · rename_i empty
      exact fun _ => ⟨.refl, fun _ _ _ _ _ => .empty empty⟩
    · rename_i req rest queue
      rw [wp_bind]
      refine wp_mono (wp_and (lookup_hit req) (lookup_frame req s)) ?_
      rintro o t ⟨⟨path, same, hit⟩, found, cache, rfl, frame⟩
      have front : t.queue.head? = some req := by rw [same, queue]; rfl
      have looked : Settled s t := by subst frame; exact .same path rfl rfl rfl fun _ => rfl
      have freed' := freed.later path
      refine wp_pays_after looked ?_
      cases found with
      | some addr =>
        change wp (serve h req addr >>= fun _ => drain h w budget) _ t
        rw [wp_bind]
        refine wp_mono (serve_settled settles (hit addr rfl) front) ?_
        rintro (_ | why) u ⟨back, thrown⟩
        · exact wp_pays_after (back rfl) (ih u (freed'.later (back rfl).path))
        · intro returned
          obtain ⟨later, debt⟩ := thrown (congrArg Outcome.halt returned)
          exact ⟨later, fun W _ _ => debt W⟩
      | none =>
        rw [wp_modify_bind]
        refine wp_workerResolve fun reply replies _ => ?_
        have step := Step.assign t w req reply front freed'
        refine ⟨.tail (.single step) (frame_replies _ replies), fun W _ debt => debt.move step.older fun _ _ owes => ?_⟩
        exact (owes.assign _ req reply).same rfl rfl rfl fun _ => rfl

/-- The guard settles the debt of its worker. -/
theorem afterResolve_pays (worker : Option ℕ) (freed : ∀ w, worker = some w → s.Freed w) :
    wp (afterResolve h worker) (Backed (Pays worker) s) s := by
  simp only [afterResolve]
  rw [wp_get_bind]
  split
  · refine fun _ => ⟨.refl, fun _ _ debt => debt.move (List.suffix_refl _) fun _ _ owes => ?_⟩
    exact owes.mono fun x owed => owed.resolve_right (by rintro ⟨⟩)
  · rename_i w
    split
    · rename_i busy
      refine fun _ => ⟨.refl, fun _ _ debt => debt.move (List.suffix_refl _) fun _ _ owes waiting => ?_⟩
      refine (owes waiting).imp_right fun all x bound free => (all x bound free).resolve_right fun same => busy ?_
      exact Option.some.inj same ▸ free
    · split
      · rename_i empty
        rw [wp_when]
        exact ⟨fun _ _ => ⟨.single (frame_rollTimer s false), fun _ _ _ _ _ => .empty empty⟩,
          fun _ _ => ⟨.refl, fun _ _ _ _ _ => .empty empty⟩⟩
      · exact drain_pays settles w _ s (freed w rfl)

/-- What follows when a request has left its worker. -/
theorem completed_pays (worker : Option ℕ) (freed : ∀ w, worker = some w → s.Freed w) :
    wp (scopeGuard h.user (afterResolve h worker)) (Backed (Pays worker) s) s := by
  refine wp_scopeGuard_back (settles.ok.user s) (settles.user s) fun t path settled => ?_
  exact wp_pays_after settled (afterResolve_pays settles worker fun w names => (freed w names).later path)

private theorem finishResolve_settled (cause : Cause s req res) :
    wp (finishResolve h req res) (Backed Settled s) s := by
  simp only [finishResolve]
  rw [wp_get_bind]
  split
  · rename_i running
    rw [wp_modify_bind]
    refine wp_mono (completed_pays settles _ (retire_freed res)) fun _ _ pays returned => ?_
    exact (pays returned).settled (.finish s req res running cause) fun _ _ => retire_frees req res s
  · exact fun _ => Std.Refl.refl s

theorem cancel_settled (req : Req) (err : Err) (s : State) :
    wp (cancel h req err) (Backed Settled s) s := finishResolve_settled settles (.canceled err)

private theorem cancelWorkers_settled (n : ℕ) : ∀ w (s : State), wp (cancelWorkers h w n) (Backed Settled s) s := by
  induction n with
  | zero => exact fun w s _ => .same (.single (.visited s)) rfl rfl rfl fun _ => rfl
  | succ n ih =>
    intro w s
    have visited : Settled s (s.log (.visit w)) := .same (.single (.visit s w)) rfl rfl rfl fun _ => rfl
    simp only [cancelWorkers]
    rw [wp_modify_bind, wp_get_bind]
    refine wp_backed_after visited ?_
    split
    · exact wp_bind_backed (cancel_settled settles _ _ _) fun _ t _ => ih (w + 1) t
    · exact ih (w + 1) _

private theorem reset_settled (s : State) : wp (reset h) (Backed Settled s) s := by
  have stopped : Settled s { s with dnsRollTimer := false } :=
    .same (.single (frame_rollTimer s false)) rfl rfl rfl fun _ => rfl
  simp only [reset]
  rw [wp_modify_bind, wp_get_bind]
  refine wp_backed_after stopped (wp_bind_backed (cancelWorkers_settled settles _ _ _) fun _ t _ => ?_)
  exact wp_bind_backed (cancelList_back (cancel_settled settles) _ _ t) fun _ u _ =>
    cancelList_back (cancel_settled settles) _ _ u

theorem Hooks.Settles.rule : Rule Settled h where
  frame s _ _ _ _ _ := .same (.single (.frame s _ _ _ _ _ _)) rfl rfl rfl fun _ => rfl
  submit query idle := resolve_settled query idle
  cancel := cancel_settled settles
  reset := reset_settled settles

end

theorem members_settles (n : ℕ) : (members n).Settles := by
  induction n with
  | zero => exact ⟨.spent, fun _ _ _ _ => nofun, fun _ => nofun⟩
  | succ n ih => exact ⟨members_ok _, fun _ _ _ cause => finishResolve_settled ih cause, ih.rule.user ih.user⟩

/-! ### The loop -/

/-- What an answer needs to know of the state in which c-ares reports it. -/
structure Answers (w : ℕ) (res : Result) (s m : State) : Prop where
  step : Step s (m.answered w res)
  size : m.size = s.size
  cfg : m.cfg = s.cfg
  queue : m.queue = s.queue
  slots : ∀ w, (m.workers w).request = (s.workers w).request
  running : ∀ r, (m.requests r).running = (s.requests r).running
  worker : ∀ r, (m.requests r).worker = (s.requests r).worker

/-- A worker hands over its request, and the guard of the completion looks after the worker. -/
theorem workerFinish_settled (settles : h.Settles) (answers : Answers w res s m) :
    wp (workerFinish h w res) (Backed Settled s) m := by
  have step := answers.step
  have own (req : Req) (slot : (m.workers w).request = some req) (sound : Sound s) (clean : Clean (m.answered w res)) :
      (m.requests req).running = true ∧ (m.requests req).worker = some w := by
    rw [answers.running, answers.worker]
    exact (sound.placed (clean.earlier step.older)).slot w req ((answers.slots w).symm.trans slot)
  simp only [workerFinish]
  rw [wp_get_bind]
  cases slot : (m.workers w).request with
  | none => rintro ⟨⟩
  | some req =>
    rw [wp_modify_bind, finishResolve, wp_get_bind]
    split
    · rename_i running
      have same : m.answered w res = (m.move w req).retire req res := by
        rw [State.answered, slot]
        exact if_pos running
      rw [wp_modify_bind]
      refine wp_mono (completed_pays settles _ (retire_freed res)) fun _ _ pays returned => ?_
      refine (pays returned).settled (same ▸ step) fun sound clean => ?_
      have worker : ((m.move w req).requests req).worker = some w := (own req slot sound (same ▸ clean)).2
      rw [worker, ← same]
      exact answered_frees (sound.placed (clean.earlier (same ▸ step.older))) res ((answers.slots w).symm.trans slot)
        answers.size answers.cfg answers.queue answers.slots (answers.running req) (answers.worker req)
    · rename_i idle
      have same : m.answered w res = m.move w req := by
        rw [State.answered, slot]
        exact if_neg idle
      refine fun _ => ⟨same ▸ .single step, fun _ sound _ clean _ => absurd (own req slot sound ?_).1 idle⟩
      exact same ▸ clean

private theorem workerOnResolve_settled (settles : h.Settles) (answers : Answers w res s m) :
    wp (workerOnResolve (workerFinish h w res) w true res) (Backed Settled s) m := by
  simp only [workerOnResolve]
  rw [wp_get_bind]
  cases slot : (m.workers w).request with
  | none =>
    have same : m.answered w res = m := by rw [State.answered, slot]
    exact fun _ => .same (.single (same ▸ answers.step)) answers.size answers.cfg answers.queue answers.slots
  | some req =>
    refine wp_bind_backed (wp_attempt_back (workerFinish_settled settles answers)) fun _ t _ => ?_
    exact wp_when_backed fun _ _ => .same (.single (frame_excs t _)) rfl rfl rfl fun _ => rfl

private theorem answer_settled (settles : h.Settles) (w position : ℕ) (res : Result) (s : State) :
    wp (answer h w position res) (Backed Settled s) s := by
  simp only [answer]
  rw [wp_get_bind]
  split
  · exact fun _ => Std.Refl.refl s
  · rename_i key asked
    rw [wp_modify_bind]
    have answers : Answers w res s (s.take w position key res) :=
      ⟨.answer s w position key res asked, rfl, rfl, rfl, take_slots w position key res s, fun _ => rfl, fun _ => rfl⟩
    refine wp_bind_backed (workerOnResolve_settled settles answers) fun _ t _ => ?_
    rw [wp_get_bind]
    refine wp_when_backed fun _ => ?_
    rw [wp_modify_bind]
    exact fun _ => .same (.single (frame_excs t _)) rfl rfl rfl fun _ => rfl

private theorem fire_settled (settles : h.Settles) (s : State) : wp (fire h) (Backed Settled s) s := by
  simp only [fire]
  rw [wp_get_bind]
  split
  · exact fun _ => Std.Refl.refl s
  · rename_i id req addr rest next
    rw [wp_modify_bind]
    let m : State := s.takeDelay req rest
    have step : Step s (m.finished req (.ok addr)) := .hit s id req addr rest next
    rw [finishResolve, wp_get_bind]
    split
    · rename_i running
      rw [State.finished, if_pos running] at step
      rw [wp_modify_bind]
      refine wp_mono (completed_pays settles _ (retire_freed _)) fun _ _ pays returned => ?_
      have frees := retire_frees req (.ok addr) m
      exact (pays returned).settled step fun _ _ => ⟨frees.size, frees.cfg, frees.queue, frees.slots⟩
    · rename_i idle
      rw [State.finished, if_neg idle] at step
      exact fun _ => .same (.single step) rfl rfl rfl fun _ => rfl
  · rename_i id w res rest next
    rw [wp_modify_bind]
    split
    · rintro ⟨⟩
    · rename_i req slot
      rw [wp_modify_bind]
      have answers : Answers w res s (s.takeDelay req rest) :=
        ⟨.reply s id w req res rest next slot, rfl, rfl, rfl, fun _ => rfl,
          setRequest_field (s := s) Request.running (by rfl), setRequest_field (s := s) Request.worker (by rfl)⟩
      exact workerFinish_settled settles answers

theorem run_settled (ts : List Turn) (s : State) : wp (run ts) (Backed Settled s) s := by
  refine run_back (fun n => (members_settles n).rule) (fun n task s => ?_) ts s
  exact (members_settles n).rule.perform (answer_settled (members_settles n)) (fire_settled (members_settles n)) task s

theorem initial_sound (cfg : Config) : Sound (initial cfg) :=
  ⟨initial_bounded cfg, fun _ => initial_placed cfg, cfg.positive⟩

theorem run_sound (cfg : Config) (ts : List Turn) : Sound (run ts (initial cfg)).2 :=
  run_invariant (fun _ _ step sound => step.sound sound) cfg (initial_sound cfg) ts

end UniEvent.Resolver
