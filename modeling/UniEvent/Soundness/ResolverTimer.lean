import UniEvent.Proofs.ResolverTimer

/-! # The roll timer runs while queries are pending

`reset` stops the timer, and then cancels the request of one worker after the other. If nothing waits when it is called
and no exception ends its pass over the workers early, then either a callback has started the timer again, or no worker
that the pass has gone by has a request (`Passing`); at the end of the pass these are all workers.
-/

namespace UniEvent.Resolver

open Program Program.Exec

variable {s t : State} {h : Hooks}

/-! ### Reset -/

/-- The pass over `n` workers is at worker `w`. -/
def Passing (n w : ℕ) (s : State) : Prop :=
  Rolls s ∨ s.queue = [] ∧ s.size = n ∧ ∀ w' < w, (s.workers w').request = none

/-- The same, unless another pass was left early in the meantime; `depth` counts the open ones. -/
def Amid (depth n w : ℕ) (s : State) : Prop :=
  WellReset s → depth ≤ resetting s.trace ∧ (resetting s.trace = depth → Passing n w s)

/-- A pass that ends leaves the timer right, and one that does not is still open. -/
def Passed (depth : ℕ) (o : Outcome Unit) (t : State) : Prop :=
  WellReset t → (o = .done () → depth ≤ resetting t.trace ∧ (resetting t.trace = depth → Rolls t)) ∧
    (o = .halt .thrown → depth < resetting t.trace)

theorem Passing.rolls {n : ℕ} (sane : Sane s) (passing : Passing n n s) : Rolls s := by
  obtain rolls | ⟨empty, size, free⟩ := passing
  · exact rolls
  · rintro (waits | ⟨w, busy⟩)
    · exact absurd empty waits
    · obtain ⟨r, slot⟩ := Option.ne_none_iff_exists'.mp busy
      exact absurd (free w (size ▸ sane.sound.bounded.slot w r slot)) busy

/-- The request of the worker that the pass has come to is canceled. -/
theorem Passing.cancel {n w : ℕ} {req : Req} {err : Err} (sane : Sane s) (clean : Clean s) (bound : w < n)
    (slot : (s.workers w).request = some req) (passing : Passing n w s)
    (follows : Follows (s.finished req (.failed err)) t) : Passing n (w + 1) t := by
  obtain rolls | ⟨empty, size, free⟩ := passing
  · exact Or.inl (follows.rolls ((finished_plain req _ s).follows.rolls rolls))
  · have placed := sane.sound.placed clean
    have running := (placed.slot w req slot).1
    rw [State.finished, if_pos running] at follows
    have leaves := retire_leaves placed (.failed err) running
    have left (w' : ℕ) (earlier : w' < w + 1) : ((s.retire req (.failed err)).workers w').request = none := by
      rw [leaves.slots]
      by_cases self : w' = w
      · rw [if_pos (self ▸ slot)]
      · rw [free w' (by omega)]
        rfl
    have off : Off (s.retire req (.failed err)) :=
      ⟨by rw [leaves.queue, empty, List.erase_nil], w, by rw [leaves.size, size]; exact bound, left w (by omega)⟩
    obtain rolls | ⟨off', size', slots⟩ := follows.off off
    · exact Or.inl rolls
    · exact Or.inr ⟨off'.queue, by rw [size', leaves.size, size], fun w' earlier => slots w' (left w' earlier)⟩

/-- One worker of the pass. -/
theorem cancelWorker_amid (minds : h.Minds) {depth n w : ℕ} {rest : Exec State Unit} (sane : Sane s) (bound : w < n)
    (amid : Amid (depth + 1) n w s)
    (later : ∀ t, Path s t → Amid (depth + 1) n (w + 1) t → wp rest (Passed depth) t) :
    wp (match (s.workers w).request with
      | some req => do
        cancel h req .canceled
        rest
      | none => rest) (Passed depth) s := by
  cases slot : (s.workers w).request with
  | none =>
    refine later s .refl fun orderly => ⟨(amid orderly).1, fun same => ?_⟩
    obtain rolls | ⟨empty, size, free⟩ := (amid orderly).2 same
    · exact Or.inl rolls
    · refine Or.inr ⟨empty, size, fun w' earlier => ?_⟩
      by_cases self : w' = w
      · exact self ▸ slot
      · exact free w' (by omega)
  | some req =>
    change wp (cancel h req .canceled >>= fun _ => rest) (Passed depth) s
    rw [wp_bind]
    have finished : Kept s (s.finished req (.failed .canceled)) := finished_kept (.canceled _)
    refine wp_mono (finishResolve_kept minds req (.failed .canceled) s) ?_
    intro o t back
    have canceled (kept : Kept (s.finished req (.failed .canceled)) t) : Path s t ∧ Amid (depth + 1) n (w + 1) t := by
      refine ⟨finished.path.trans kept.path, fun orderly => ?_⟩
      have before := orderly.earlier (path_older (finished.path.trans kept.path))
      have deeper := kept.depth (sane.along finished.path) orderly
      have same := (finished_plain req (.failed .canceled) s).depth
      obtain ⟨lower, passing⟩ := amid before
      refine ⟨by omega, fun equal => ?_⟩
      exact (passing (by omega)).cancel sane before.clean bound slot
        (kept.follows (sane.along finished.path) orderly (by omega))
    cases o with
    | done value =>
      obtain ⟨path, amid'⟩ := canceled (back trivial)
      exact later t path amid'
    | halt why =>
      refine fun orderly => ⟨nofun, fun same => ?_⟩
      cases same
      exact ((canceled (back rfl)).2 orderly).1

private theorem cancelWorkers_amid (minds : h.Minds) (depth : ℕ) (n : ℕ) : ∀ w (s : State), Sane s →
    Amid (depth + 1) (w + 1 + n) (w + 1) s → wp (cancelWorkers h (w + 1) n) (Passed depth) s := by
  induction n with
  | zero =>
    intro w s sane amid
    change Passed depth (.done ()) (s.log .visited)
    intro orderly
    have lower : resetting (s.log .visited).trace = resetting s.trace - 1 := rfl
    obtain ⟨deep, passing⟩ := amid (orderly.earlier (List.suffix_cons _ _))
    refine ⟨fun _ => ⟨by omega, fun same => ?_⟩, nofun⟩
    have rolls : Rolls s := (passing (by omega)).rolls sane
    exact rolls
  | succ n ih =>
    intro w s sane amid
    simp only [cancelWorkers]
    rw [wp_modify_bind, wp_get_bind]
    have sane' := (Step.visit s (w + 1)).sane sane
    refine cancelWorker_amid (n := w + 1 + (n + 1)) minds sane' (by omega) ?_ fun t path amid' => ?_
    · exact fun orderly => amid (orderly.earlier (List.suffix_cons _ _))
    · refine ih (w + 1) t (sane'.along path) ?_
      rw [show w + 1 + 1 + n = w + 1 + (n + 1) by omega]
      exact amid'

/-- The pass over the workers, from its beginning. -/
theorem cancelWorkers_passed (minds : h.Minds) (sane : Sane s) :
    wp (cancelWorkers h 0 s.size) (Passed (resetting s.trace)) s := by
  obtain ⟨n, size⟩ : ∃ n, s.size = n + 1 := Nat.exists_eq_succ_of_ne_zero sane.positive.ne'
  rw [size]
  simp only [cancelWorkers]
  rw [wp_modify_bind, wp_get_bind]
  have sane' := (Step.visit s 0).sane sane
  refine cancelWorker_amid (n := n + 1) minds sane' (by omega) (fun orderly => ⟨le_rfl, fun _ => ?_⟩)
    fun t path amid => ?_
  · have before := orderly.earlier (s := s) (List.suffix_cons _ _)
    exact Or.inr ⟨(sane.queue before.clean).trans orderly.resets.1, size, (by rintro _ ⟨⟩)⟩
  · refine cancelWorkers_amid minds _ n 0 t (sane'.along path) ?_
    rw [Nat.zero_add, Nat.add_comm 1 n]
    exact amid

/-- After `reset` the timer is right, unless a pass was left early. -/
theorem reset_rolls (minds : h.Minds) (sane : Sane s) :
    wp (reset h) (fun o t => o.Returned → WellReset t →
      resetting s.trace ≤ resetting t.trace ∧ (resetting t.trace = resetting s.trace → Rolls t)) s := by
  let m : State := { s with dnsRollTimer := false }
  have sane' : Sane m := (frame_rollTimer s false).sane sane
  simp only [reset]
  rw [wp_modify_bind, wp_get_bind, wp_bind]
  have begun : wp (cancelWorkers h 0 m.size) (Passed (resetting s.trace)) m := cancelWorkers_passed minds sane'
  refine wp_mono (wp_and (cancelWorkers_reached minds.ok _ _ m) begun) ?_
  rintro (_ | why) t ⟨path, passed⟩
  · have listed := wp_bind_backed
      (cancelList_back (cancel_kept minds) State.cacheDelayed s.cacheDelayed.getLast? t) fun _ u _ =>
        cancelList_back (cancel_kept minds) State.queue s.queue.getLast? u
    rw [next_done]
    refine wp_mono listed ?_
    intro o u kept back orderly
    have kept := kept back
    have sane'' := sane'.along path
    have deeper := kept.depth sane'' orderly
    obtain ⟨lower, rolls⟩ := (passed (orderly.earlier (path_older kept.path))).1 rfl
    refine ⟨by omega, fun equal => ?_⟩
    exact (kept.follows sane'' orderly (by omega)).rolls (rolls (by omega))
  · intro back orderly
    obtain rfl : why = .thrown := back
    have deeper : resetting s.trace < resetting t.trace := (passed orderly).2 rfl
    exact ⟨deeper.le, fun equal => absurd equal deeper.ne'⟩

private theorem reset_kept (minds : h.Minds) (s : State) : wp (reset h) (Backed Kept s) s := by
  have path : wp (reset h) (Reached Step s) s := reset_reached minds.ok s
  intro back
  refine ⟨path, fun sane orderly => ?_, fun sane orderly same => .of_rolls ?_⟩
  · exact (reset_rolls minds sane back orderly).1
  · exact (reset_rolls minds sane back orderly).2 same

/-! ### The user and the loop -/

private theorem resolve_kept {req : Req} (query : Query) (idle : (s.requests req).running = false) :
    wp (resolve req query) (Backed Kept s) s := by
  have path : wp (resolve req query) (Reached Step s) s := resolve_reached query idle
  exact fun _ => Plain.kept path fun sane => resolve_plain req query sane.positive

theorem Hooks.Minds.rule (minds : h.Minds) : Rule Kept h where
  frame s _ _ _ _ _ := Plain.step (.frame s _ _ _ _ _ _) (.same rfl rfl rfl (fun _ => rfl) rfl)
  submit query idle := resolve_kept query idle
  cancel := cancel_kept minds
  reset := reset_kept minds

theorem members_minds (n : ℕ) : (members n).Minds := by
  induction n with
  | zero => exact ⟨.spent, fun _ _ _ _ => nofun, fun _ => nofun⟩
  | succ n ih =>
    exact ⟨members_ok _, fun req res s cause => wp_backed_after (finished_kept cause) (finishResolve_kept ih req res s),
      ih.rule.user ih.user⟩

/-- A request is taken from its worker. -/
theorem answered_plain (w : ℕ) (res : Result) (s : State) : Plain s (s.answered w res) := by
  rw [State.answered]
  split
  · exact .same rfl rfl rfl (fun _ => rfl) rfl
  · rename_i req slot
    have moved : Plain s (s.move w req) := by
      refine ⟨.of_fewer rfl rfl (fun empty => empty) fun w' free => ?_, rfl⟩
      by_cases self : w' = w
      · simp [self, State.move, State.setWorker, State.log]
      · simpa [self, State.move, State.setWorker, State.log] using free
    exact moved.trans (finished_plain req res _)

private theorem workerFinish_kept (minds : h.Minds) (w : ℕ) (res : Result) (s : State) :
    wp (workerFinish h w res) (Backed Kept (s.answered w res)) s := by
  simp only [workerFinish]
  rw [wp_get_bind, State.answered]
  cases (s.workers w).request with
  | none => rintro ⟨⟩
  | some req =>
    rw [wp_modify_bind]
    exact finishResolve_kept minds req res _

private theorem workerOnResolve_kept (minds : h.Minds) (w : ℕ) (res : Result) (s : State) :
    wp (workerOnResolve (workerFinish h w res) w true res) (Backed Kept (s.answered w res)) s := by
  have finished := wp_attempt_back (workerFinish_kept minds w res s)
  simp only [workerOnResolve]
  rw [wp_get_bind]
  cases slot : (s.workers w).request with
  | none =>
    rw [State.answered, slot]
    exact fun _ => Std.Refl.refl s
  | some req =>
    refine wp_bind_backed finished fun _ t _ => wp_when_backed fun _ _ => ?_
    exact Plain.step (frame_excs t _) (.same rfl rfl rfl (fun _ => rfl) rfl)

private theorem answer_kept (minds : h.Minds) (w position : ℕ) (res : Result) (s : State) :
    wp (answer h w position res) (Backed Kept s) s := by
  simp only [answer]
  rw [wp_get_bind]
  split
  · exact fun _ => Std.Refl.refl s
  · rename_i key asked
    have taken : Plain s (s.take w position key res) := .same rfl rfl rfl (take_slots w position key res s) rfl
    have answered : Kept s ((s.take w position key res).answered w res) :=
      Plain.step (.answer s w position key res asked) (taken.trans (answered_plain w res _))
    rw [wp_modify_bind]
    refine wp_backed_after answered (wp_bind_backed (workerOnResolve_kept minds w res _) fun _ t _ => ?_)
    rw [wp_get_bind]
    refine wp_when_backed fun _ => ?_
    rw [wp_modify_bind]
    exact fun _ => Plain.step (frame_excs t _) (.same rfl rfl rfl (fun _ => rfl) rfl)

private theorem fire_kept (minds : h.Minds) (s : State) : wp (fire h) (Backed Kept s) s := by
  simp only [fire]
  rw [wp_get_bind]
  split
  · exact fun _ => Std.Refl.refl s
  · rename_i id req addr rest next
    let m : State := s.takeDelay req rest
    have popped : Plain s m := .same rfl rfl rfl (fun _ => rfl) rfl
    rw [wp_modify_bind]
    exact wp_backed_after (Plain.step (.hit s id req addr rest next) (popped.trans (finished_plain req _ m)))
      (finishResolve_kept minds req _ m)
  · rename_i id w res rest next
    rw [wp_modify_bind]
    split
    · rintro ⟨⟩
    · rename_i req slot
      let m : State := s.takeDelay req rest
      have popped : Plain s m := .same rfl rfl rfl (fun _ => rfl) rfl
      rw [wp_modify_bind]
      exact wp_backed_after (Plain.step (.reply s id w req res rest next slot) (popped.trans (answered_plain w res m)))
        (workerFinish_kept minds w res m)

private theorem run_kept (ts : List Turn) (s : State) : wp (run ts) (Backed Kept s) s := by
  refine run_back (fun n => (members_minds n).rule) (fun n task s => ?_) ts s
  exact (members_minds n).rule.perform (answer_kept (members_minds n)) (fire_kept (members_minds n)) task s

private theorem initial_sane (cfg : Config) : Sane (initial cfg) := ⟨initial_sound cfg, Nat.one_pos, fun _ => rfl⟩

/-- After every run that has come back to the loop, the timer runs if a worker has a request, provided that the run is
clean, that nothing waits when `reset` is called, and that no exception has ended a pass of `reset` over the workers. -/
theorem run_rolls (cfg : Config) (ts : List Turn) (back : (run ts (initial cfg)).1 = .done ())
    (orderly : WellReset (run ts (initial cfg)).2) (ended : resetting (run ts (initial cfg)).2.trace = 0) (w : ℕ)
    (busy : ((run ts (initial cfg)).2.workers w).request ≠ none) : (run ts (initial cfg)).2.dnsRollTimer = true := by
  have kept := run_kept ts (initial cfg) (Outcome.returned_of_eq back)
  have starts : Rolls (initial cfg) := by
    rintro (waits | ⟨w, busy⟩)
    · exact absurd rfl waits
    · exact absurd rfl busy
  exact (kept.follows (initial_sane cfg) orderly ended).rolls starts (Or.inr ⟨w, busy⟩)

/-- `reset` cancels the requests of two workers, and the first callback submits another one. -/
def resubmittingTurns : List Turn :=
  [⟨6, [], [], .op (.submit 0 ⟨['a'], [], 0, {}, true, 0⟩)⟩,
    ⟨6, [], [], .op (.submit 1 ⟨['b'], [], 0, {}, true, 0⟩)⟩,
    ⟨6, [.op (.submit 2 ⟨['c'], [], 0, {}, true, 0⟩)], [], .op .reset⟩]

theorem resubmittingTurns_roll :
    let s := (run resubmittingTurns (initial { workers := 2 })).2
    (s.workers 0).request = some 2 ∧ (s.workers 1).request = none ∧ s.dnsRollTimer = true :=
  ⟨by decide, by decide, run_rolls _ resubmittingTurns (by decide) ⟨by decide, by decide⟩ (by decide) 0 (by decide)⟩

/-- Two requests wait for the only worker when `reset` is called. -/
def waitingReset : List Turn :=
  [⟨6, [], [], .op (.submit 0 ⟨['a'], [], 0, {}, true, 0⟩)⟩,
    ⟨6, [], [], .op (.submit 1 ⟨['b'], [], 0, {}, true, 0⟩)⟩,
    ⟨6, [], [], .op (.submit 2 ⟨['c'], [], 0, {}, true, 0⟩)⟩,
    ⟨6, [], [], .op .reset⟩]

theorem waitingReset_stopped :
    let s := (run waitingReset (initial { workers := 1 })).2
    (run waitingReset (initial { workers := 1 })).1 = .done () ∧ (s.workers 0).request = some 1 ∧
      s.dnsRollTimer = false := by
  decide

/-- The same with an exception: the callback of the first of two canceled requests throws. -/
example :
    let s := (run [⟨6, [], [], .op (.submit 0 ⟨['a'], [], 0, {}, true, 0⟩)⟩,
      ⟨6, [], [], .op (.submit 1 ⟨['b'], [], 0, {}, true, 0⟩)⟩, ⟨6, [.throw], [], .op .reset⟩]
      (initial { workers := 2 })).2
    (s.workers 1).request = some 1 ∧ s.dnsRollTimer = false ∧ resetting s.trace = 1 := by
  decide

end UniEvent.Resolver
