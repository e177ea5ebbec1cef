import UniEvent.Proofs.StreamEffects

/-! # Enough depth always suffices

Members are built with a bound on the depth of recursion, which also bounds the loops of `cancel`. A
call that runs into the bound would be a call the code never returns from. It does not happen if the
bound exceeds `weight s`: what the user still does counts three for each action, a queued request two and
a parked one one. Every nested call of a member is made after one of these was used up: an action adds at
most one request, `done` takes a request off the queue and parks it at most, a flush takes a parked one.
-/

namespace UniEvent.Stream

open Program Program.Exec

variable {s m t : State} {h : Members} {k : ℕ} {α β : Type} {c : Exec State Unit} {f : β → Exec State α} {o : Outcome α}

def weight (s : State) : ℕ := 3 * s.owner.script.length + 2 * s.requests.length + s.finalizedRequests.length

/-- The work left did not grow, and it shrank unless `requests` is as it was. -/
structure Shrinks (s t : State) : Prop where
  script : t.owner.script <:+ s.owner.script
  weight : weight t < weight s ∨ (weight t ≤ weight s ∧ t.requests = s.requests)

/-- The call ended, though perhaps by a failed assertion, and stopped short only if the user said so. -/
structure Ends (s : State) (o : Outcome α) (t : State) : Prop where
  exhausted : o ≠ .halt .exhausted
  stopped : Act.stop ∉ s.owner.script → o ≠ .halt .stopped
  shrinks : o.Returned → Shrinks s t

/-- The call ended with less than `k` work left. -/
structure EndsBelow (k : ℕ) (s : State) (o : Outcome α) (t : State) : Prop extends Ends s o t where
  below : o.Returned → weight t < k

/-- The call ends from every state with less than `k` work left. -/
def Tame (k : ℕ) (c : Exec State α) : Prop := ∀ s, weight s < k → wp c (Ends s) s

/-- The members of a request end where less than `k` work is left. -/
structure Total (h : Members) (k : ℕ) : Prop where
  exec : ∀ req, Tame k (h.exec req)
  cancel : ∀ req err, Tame k (h.cancel req err)
  notify : ∀ req err, Tame k (h.notify req err)
  call : ∀ f, Tame k (h.call f)
  user : Tame k h.user
  budget : k < h.budget

theorem Shrinks.refl : Shrinks s s := ⟨List.suffix_refl _, .inr ⟨le_rfl, rfl⟩⟩

theorem Shrinks.le (shrinks : Shrinks s t) : Stream.weight t ≤ Stream.weight s :=
  shrinks.weight.elim Nat.le_of_lt And.left

theorem Shrinks.trans (first : Shrinks s m) (second : Shrinks m t) : Shrinks s t := by
  refine ⟨second.script.trans first.script, ?_⟩
  rcases first.weight with less | ⟨le, same⟩
  · exact .inl (lt_of_le_of_lt second.le less)
  · exact second.weight.imp (fun less => lt_of_lt_of_le less le)
      fun rest => ⟨le_trans rest.1 le, rest.2.trans same⟩

/-- Moves that touch neither the user's plans nor the chains. -/
theorem Shrinks.frame (script : t.owner.script = s.owner.script) (requests : t.requests = s.requests)
    (finalized : t.finalizedRequests = s.finalizedRequests) : Shrinks s t := by
  refine ⟨by rw [script], .inr ⟨?_, requests⟩⟩
  simp [Stream.weight, script, requests, finalized]

theorem Handled.shrinks (handled : Handled s t) : Shrinks s t := by
  obtain ⟨owner, rfl, _, _, _, script⟩ := handled
  refine ⟨script, .inr ⟨?_, rfl⟩⟩
  have shorter := script.length_le
  simp only [Stream.weight]
  omega

theorem Ends.done (value : α) (shrinks : Shrinks s t) : Ends s (.done value) t :=
  ⟨by simp, by simp, fun _ => shrinks⟩

theorem Ends.thrown (shrinks : Shrinks s t) : Ends s (.halt .thrown : Outcome α) t :=
  ⟨by simp, by simp, fun _ => shrinks⟩

theorem Ends.aborted : Ends s (.halt .aborted : Outcome α) t := ⟨by simp, by simp, fun returned => by cases returned⟩

theorem Ends.after (first : Shrinks s m) (second : Ends m o t) : Ends s o t where
  exhausted := second.exhausted
  stopped absent := second.stopped fun member => absent (first.script.subset member)
  shrinks returned := first.trans (second.shrinks returned)

theorem Ends.outcome {o' : Outcome β} (ends : Ends s o t) (exhausted : o' = .halt .exhausted → o = .halt .exhausted)
    (stopped : o' = .halt .stopped → o = .halt .stopped) (returned : o'.Returned → o.Returned) : Ends s o' t where
  exhausted same := ends.exhausted (exhausted same)
  stopped absent same := ends.stopped absent (stopped same)
  shrinks back := ends.shrinks (returned back)

/-- What halts a call halts the calls around it. -/
theorem Ends.halt {why : Halt} (ends : Ends s (.halt why : Outcome α) t) : Ends s (.halt why : Outcome β) t :=
  ends.outcome (fun same => by cases same; rfl) (fun same => by cases same; rfl) id

/-- Sequencing two calls, the second with no more work left than the first had. -/
theorem wp_bind_ends {c : Exec State β} (first : wp c (Ends s) s)
    (second : ∀ value m, Shrinks s m → wp (f value) (Ends m) m) : wp (c >>= f) (Ends s) s := by
  rw [wp_bind]
  refine wp_mono first ?_
  rintro (value | why) m ends
  · have shrinks := ends.shrinks trivial
    exact .after shrinks (second value m shrinks)
  · exact ends.halt

theorem wp_attempt_ends (first : wp c (Ends s) s) : wp (attempt c) (Ends s) s := by
  rw [wp_attempt]
  refine wp_mono first ?_
  rintro (_ | why) t ends
  · exact .done false (ends.shrinks trivial)
  · cases why with
    | thrown => exact .done true (ends.shrinks rfl)
    | _ => exact ends.halt

/-- Sequencing two calls, the second with less than `k` work left. -/
theorem wp_bind_below {c : Exec State β} (first : wp c (EndsBelow k s) s)
    (second : ∀ value m, Shrinks s m → weight m < k → wp (f value) (Ends m) m) : wp (c >>= f) (EndsBelow k s) s := by
  rw [wp_bind]
  refine wp_mono first ?_
  rintro (value | why) m ends
  · have shrinks := ends.shrinks trivial
    have rest := second value m shrinks (ends.below trivial)
    exact ⟨.after shrinks rest, fun returned => lt_of_le_of_lt (rest.shrinks returned).le (ends.below trivial)⟩
  · exact ⟨ends.halt, ends.below⟩

private theorem wp_attempt_below (first : wp c (EndsBelow k s) s) : wp (attempt c) (EndsBelow k s) s :=
  ⟨wp_attempt_ends (wp_mono first fun _ _ => EndsBelow.toEnds),
    wp_attempt_back (wp_mono first fun _ _ => EndsBelow.below)⟩

theorem wp_ignoring_ends (first : wp c (Ends s) s) : wp (ignoring c) (Ends s) s :=
  wp_bind_ends (wp_attempt_ends first) fun _ _ _ => .done () .refl

theorem wp_local_ends {c : Exec State β} (first : Local c) (second : ∀ value m, Handled s m → wp (f value) (Ends m) m) :
    wp (c >>= f) (Ends s) s :=
  wp_local first fun value m handled => Ends.after handled.shrinks (second value m handled)

/-! ### The queue -/

section Queue
variable (total : Total h k)
include total

private theorem start_ends (req : Req) : Tame k (Queue.start h req) := by
  intro s light
  exact Ends.after (m := s.log (.exec req s.requests)) (.frame rfl rfl rfl) (total.exec req _ light)

private theorem resume_ends : Tame k (Queue.resume h) := by
  intro s light
  simp only [Queue.resume]
  rw [wp_get_bind]
  split
  · exact .done () .refl
  · rw [wp_when]
    exact ⟨fun _ => start_ends total _ s light, fun _ => .done () .refl⟩

private theorem pushed_ends (req : Req) : Tame k (Queue.pushed h req) := by
  intro s light
  simp only [Queue.pushed]
  rw [wp_get_bind]
  refine wp_bind_ends ?_ fun _ m _ => .done () (.frame rfl rfl rfl)
  rw [wp_when]
  exact ⟨fun _ => start_ends total req s light, fun _ => .done () .refl⟩

private theorem release_ends : Tame k (Queue.release h) := by
  intro s light
  simp only [Queue.release]
  rw [wp_modify_bind, wp_modify_bind]
  refine Ends.after (m := { s.unlock with resumeRecursion := s.unlock.resumeRecursion + 1 }) (.frame rfl rfl rfl) ?_
  exact wp_bind_ends (resume_ends total _ light) fun _ m _ => .done () (.frame rfl rfl rfl)

private theorem finish_ends (f : Fn) : Tame k (scopeGuard (h.call f) (Queue.release h)) := by
  intro s light
  refine wp_bind_ends (wp_attempt_ends (total.call f s light)) fun kept m shrinks => ?_
  refine wp_bind_ends (release_ends total m (lt_of_le_of_lt shrinks.le light)) fun _ t _ => ?_
  rw [wp_when]
  exact ⟨fun _ => .thrown .refl, fun _ => .done () .refl⟩

/-- `done` takes the front off the queue before it runs anything. -/
theorem done_below (check : Req) (f : Fn) (light : weight s < k + 1) :
    wp (Queue.done h check f) (EndsBelow (weight s) s) s := by
  simp only [Queue.done, wp_bind, wp_modify, wp_get, next_done, wp_assert]
  refine ⟨fun atFront => ?_, fun _ => ⟨.aborted, fun returned => by cases returned⟩⟩
  let retired : State := (s.log (.done check s.requests)).retire check
  have less : weight retired + 2 = weight s := by
    obtain ⟨rest, requests⟩ := List.head?_eq_some_iff.mp (show s.requests.head? = some check from atFront)
    have waiting : s.requests.tail.length + 1 = s.requests.length := by rw [requests]; rfl
    change 3 * s.owner.script.length + 2 * s.requests.tail.length + s.finalizedRequests.length + 2 = weight s
    simp only [weight]
    omega
  have parked (split : Bool) : weight (retired.park check f split) < weight s := by
    have more : weight (retired.park check f split) = weight retired + 1 := by
      simp only [weight, World.park, World.delay, List.length_append, List.length_singleton]
      omega
    omega
  have script : s.owner.script <:+ s.owner.script := List.suffix_refl _
  simp only [next_done, Queue.complete, wp_bind, wp_get]
  split
  · exact ⟨.done () ⟨script, .inl (parked true)⟩, fun _ => parked true⟩
  split
  · let locked : State := retired.lock.log (.finish check f s.finalizedRequests)
    have same : weight locked = weight retired := rfl
    have ends := finish_ends total f locked (by omega)
    simp only [wp_bind, wp_modify, next_done]
    refine ⟨.after (m := locked) ⟨script, .inl (by omega)⟩ ends, fun returned => ?_⟩
    exact lt_of_le_of_lt (ends.shrinks returned).le (by omega)
  · exact ⟨.done () ⟨script, .inl (parked false)⟩, fun _ => parked false⟩

theorem done_ends (check : Req) (f : Fn) : Tame (k + 1) (Queue.done h check f) :=
  fun _ light => (done_below total check f light).toEnds

/-- Each round of the flush takes a parked request. -/
theorem flushFinalized_ends (budget : ℕ) : ∀ s, weight s < k + 1 → weight s < budget →
    wp (Queue.flushFinalized h budget) (Ends s) s := by
  induction budget with
  | zero => exact fun s _ none => absurd none (Nat.not_lt_zero _)
  | succ budget ih =>
    intro s light enough
    simp only [Queue.flushFinalized]
    rw [wp_get_bind]
    split
    · exact .done false .refl
    · rename_i cur rest parked
      have less : weight (s.flush cur .canceled) < weight s := by
        simp only [weight, World.flush, World.log, World.delayCancel, parked, List.tail_cons, List.length_cons]
        omega
      rw [wp_modify_bind]
      refine Ends.after (m := s.flush cur .canceled) ⟨List.suffix_refl _, .inl less⟩ ?_
      refine wp_bind_ends (wp_attempt_ends (total.notify cur _ _ (by omega))) fun kept m shrinks => ?_
      have le := shrinks.le
      exact wp_bind_ends (ih m (by omega) (by omega)) fun later t _ => .done _ .refl

/-- Each round of the loop whose assertion holds takes a request off the queue. -/
theorem cancelRequests_ends (budget : ℕ) : ∀ s, weight s < k → weight s < budget →
    wp (Queue.cancelRequests h budget) (Ends s) s := by
  induction budget with
  | zero => exact fun s _ none => absurd none (Nat.not_lt_zero _)
  | succ budget ih =>
    intro s light enough
    simp only [Queue.cancelRequests]
    rw [wp_get_bind]
    split
    · exact .aborted
    · rename_i cur rest requests
      have atFront : s.requests.head? = some cur := by rw [requests, List.head?_cons]
      rw [wp_modify_bind]
      refine Ends.after (m := s.log (.cancel cur)) (.frame rfl rfl rfl) ?_
      have first := wp_attempt_ends (total.cancel cur .canceled (s.log (.cancel cur)) light)
      refine wp_bind_ends first fun kept m shrinks => ?_
      rw [wp_get_bind, wp_bind, wp_assert]
      refine ⟨fun gone => ?_, fun _ => .aborted⟩
      have less : weight m < weight (s.log (.cancel cur)) :=
        shrinks.weight.resolve_right fun same => gone (by rw [same.2]; exact atFront)
      have same : weight (s.log (.cancel cur)) = weight s := rfl
      rw [next_done]
      split
      · exact wp_bind_ends (ih m (by omega) (by omega)) fun later t _ => .done _ .refl
      · exact .done kept .refl

private theorem cancelWaiting_ends : Tame k (Queue.cancelWaiting h) := by
  intro s light
  simp only [Queue.cancelWaiting]
  rw [wp_get_bind]
  split
  · exact cancelRequests_ends total h.budget s light (lt_of_lt_of_le light (Nat.le_of_lt total.budget))
  · exact .done false .refl

end Queue

private theorem postCancel_ends {fpost : Exec State Unit} (gen : ℕ) (post : wp fpost (Ends s) s) :
    wp (Queue.postCancel fpost gen) (Ends s) s := by
  simp only [Queue.postCancel]
  rw [wp_get_bind]
  split
  · exact wp_attempt_ends (wp_bind_ends post fun _ m _ => .done () (.frame rfl rfl rfl))
  · exact .done false .refl

theorem flushFinalized_kept (budget : ℕ) : ∀ s : State,
    wp (Queue.flushFinalized h budget) (fun o _ => o ≠ .halt .thrown) s := by
  induction budget with
  | zero => exact fun _ same => by cases same
  | succ budget ih =>
    intro s
    simp only [Queue.flushFinalized]
    rw [wp_get_bind]
    split
    · exact fun same => by cases same
    · rw [wp_modify_bind]
      refine wp_bind_kept (wp_attempt_kept _ _) fun kept m => ?_
      exact wp_bind_kept (ih m) fun later t same => by cases same

theorem cancelRequests_kept (budget : ℕ) : ∀ s : State,
    wp (Queue.cancelRequests h budget) (fun o _ => o ≠ .halt .thrown) s := by
  induction budget with
  | zero => exact fun _ same => by cases same
  | succ budget ih =>
    intro s
    simp only [Queue.cancelRequests]
    rw [wp_get_bind]
    split
    · exact fun same => by cases same
    · rw [wp_modify_bind]
      refine wp_bind_kept (wp_attempt_kept _ _) fun kept m => ?_
      rw [wp_get_bind, wp_bind, wp_assert]
      refine ⟨fun _ => ?_, fun _ same => by cases same⟩
      rw [next_done]
      split
      · exact wp_bind_kept (ih m) fun later t same => by cases same
      · exact fun same => by cases same

/-- The keeper lets no exception out before the end of `cancel`. -/
theorem cancelPending_kept (fpre : Exec State Unit) (s : State) :
    wp (Queue.cancelPending h fpre) (fun o _ => o ≠ .halt .thrown) s := by
  refine wp_bind_kept (flushFinalized_kept _ s) fun _ m => wp_bind_kept (wp_attempt_kept _ m) fun _ t => ?_
  refine wp_bind_kept ?_ fun _ _ same => by cases same
  simp only [Queue.cancelWaiting]
  rw [wp_get_bind]
  split
  · exact cancelRequests_kept _ t
  · exact fun same => by cases same

theorem cancelLocked_kept (fpre fpost : Exec State Unit) (gen : ℕ) (s : State) :
    wp (Queue.cancelLocked h fpre fpost gen) (fun o _ => o ≠ .halt .thrown) s := by
  refine wp_bind_kept (cancelPending_kept fpre s) fun _ m => wp_bind_kept ?_ fun _ _ same => by cases same
  simp only [Queue.postCancel]
  rw [wp_get_bind]
  split
  · exact wp_attempt_kept _ m
  · exact fun same => by cases same

/-- The work of a cancel before its post step, if its pre step leaves less than `k`. -/
theorem cancelPending_below (total : Total h k) {fpre : Exec State Unit} (light : weight s < k + 1)
    (pre : ∀ m, weight m ≤ weight s → wp fpre (EndsBelow k m) m) :
    wp (Queue.cancelPending h fpre) (EndsBelow k s) s := by
  simp only [Queue.cancelPending]
  rw [wp_bind]
  refine wp_mono (wp_and (flushFinalized_kept h.budget s)
    (flushFinalized_ends total h.budget s light (lt_of_le_of_lt (Nat.le_of_lt_succ light) total.budget))) ?_
  rintro (flushed | why) m ⟨kept, ends⟩
  · have shrinks := ends.shrinks trivial
    have rest := wp_bind_below (f := fun kept => do
        let canceled ← Queue.cancelWaiting h
        pure (flushed || kept || canceled)) (wp_attempt_below (pre m shrinks.le)) fun kept t _ below =>
      wp_bind_ends (cancelWaiting_ends total t below) fun canceled u _ => .done _ .refl
    exact ⟨.after shrinks rest.toEnds, rest.below⟩
  · exact ⟨ends.halt, fun returned => (kept (congrArg _ returned)).elim⟩

theorem cancelLocked_below (total : Total h k) {fpre fpost : Exec State Unit} (gen : ℕ) (light : weight s < k + 1)
    (pre : ∀ m, weight m ≤ weight s → wp fpre (EndsBelow k m) m) (post : Tame k fpost) :
    wp (Queue.cancelLocked h fpre fpost gen) (EndsBelow k s) s :=
  wp_bind_below (cancelPending_below total light pre) fun _ m _ below =>
    wp_bind_ends (postCancel_ends gen (post m below)) fun _ _ _ => .done _ .refl

/-- `cancel` ends if its steps do and its pre step, if the queue has as much work as allowed, uses some up. -/
theorem cancel_ends (total : Total h k) {fpre fpost : Exec State Unit} (till : Option Req) (light : weight s < k + 1)
    (pre : ∀ m, weight m ≤ weight s → wp fpre (EndsBelow k m) m) (post : Tame k fpost) :
    wp (Queue.cancel h fpre fpost till) (Ends s) s := by
  simp only [Queue.cancel]
  rw [wp_modify_bind, wp_get_bind]
  refine Ends.after (m := s.beginCancel till) (.frame rfl rfl rfl) ?_
  have locked := cancelLocked_below total (s := s.beginCancel till) (s.beginCancel till).cancelGen light pre post
  refine (wp_bind_below locked fun kept m _ below => ?_).toEnds
  rw [wp_modify_bind]
  refine Ends.after (m := m.endCancel) (.frame rfl rfl rfl) (wp_bind_ends (resume_ends total _ below) fun _ t _ => ?_)
  rw [wp_when]
  exact ⟨fun _ => .thrown .refl, fun _ => .done () .refl⟩

/-! ### Operations and user code -/

/-- A call made when some work has been used up. -/
theorem Ends.below (script : m.owner.script <:+ s.owner.script) (less : weight m < weight s) (ends : Ends m o t) :
    EndsBelow (weight s) s o t :=
  ⟨.after ⟨script, .inl less⟩ ends, fun returned => lt_of_le_of_lt (ends.shrinks returned).le less⟩

private theorem enqueue_weight (s : State) (req : Req) {owner : Handle} (script : owner.script = s.owner.script) :
    weight ({ s with owner }.enqueue req) = weight s + 2 := by
  change 3 * owner.script.length + 2 * (s.requests ++ [req]).length + s.finalizedRequests.length = _
  simp only [script, weight, List.length_append, List.length_singleton]
  omega

theorem resetHandle_ends : Tame k _reset := fun _ _ => .done () (.frame rfl rfl rfl)

theorem clearHandle_ends : Tame k _clear := fun _ _ => .done () (.frame rfl rfl rfl)

/-- `reset()` and `clear()` -/
theorem reset_ends (total : Total h k) {fpost : Exec State Unit} (post : Tame k fpost) :
    Tame k (do note .resetCall; Queue.cancel h (pure ()) fpost none) := by
  intro s light
  refine Ends.after (m := s.log (.own .resetCall)) (.frame rfl rfl rfl) ?_
  refine cancel_ends total none (Nat.lt_succ_of_lt light) (fun m le => ?_) post
  exact ⟨.done () .refl, fun _ => lt_of_le_of_lt le light⟩

theorem noting_ends {clear : Bool} (call : wp c (Ends s) s) : wp (noting clear c) (Ends s) s := by
  refine wp_noting call fun o t ends returned => ⟨ends.exhausted, ends.stopped, fun _ => ?_⟩
  exact (ends.shrinks returned).trans (noted_handled clear s t).shrinks

section User
variable (total : Total h k) (script : m.owner.script <:+ s.owner.script) (less : weight m + 2 < weight s)
  (light : weight s < k + 1)
include total script less light

/-- `push`, paid for by the action that calls it. -/
theorem push_below (req : Req) {owner : Handle} (same : owner.script = m.owner.script) :
    wp (Queue.pushed h req) (EndsBelow (weight s) s) ({ m with owner }.enqueue req) := by
  have more := enqueue_weight m req same
  refine Ends.below ?_ (by omega) (pushed_ends total req _ (by omega))
  change owner.script <:+ _
  rwa [same]

private theorem runOp_below (op : Op) : wp (runOp h op) (EndsBelow (weight s) s) m := by
  have lighter : weight m < weight s := by omega
  have below : weight m < k := by omega
  have keep : Ends m (.done () : Outcome Unit) m := .done () .refl
  cases op with
  | connect id timeout =>
    simp only [runOp, wp_bind, wp_get, next_done, wp_when]
    exact ⟨fun _ => push_below total script less light _ rfl, fun _ => keep.below script lighter⟩
  | write id bufs =>
    simp only [runOp, wp_bind, wp_get, next_done, wp_when]
    exact ⟨fun _ => push_below total script less light _ rfl, fun _ => keep.below script lighter⟩
  | shutdown id timeout =>
    simp only [runOp, wp_bind, wp_get, next_done, wp_when]
    exact ⟨fun _ => push_below total script less light _ rfl, fun _ => keep.below script lighter⟩
  | runInOrder =>
    simp only [runOp, runInOrder]
    rw [wp_get_bind]
    split
    · have user := total.user (m.log (.own (.runNow m.finalizedRequests))) below
      exact Ends.below script lighter
        (Ends.after (m := m.log (.own (.runNow m.finalizedRequests))) (.frame rfl rfl rfl) user)
    · exact push_below total script less light _ rfl
  | disconnect =>
    simp only [runOp, disconnect]
    rw [wp_get_bind]
    split
    · exact Ends.below script lighter (resetHandle_ends m below)
    · split
      · exact Ends.below script lighter (noting_ends (reset_ends total resetHandle_ends m below))
      · exact push_below total script less light _ rfl
  | reset => exact Ends.below script lighter (noting_ends (reset_ends total resetHandle_ends m below))
  | clear => exact Ends.below script lighter (noting_ends (reset_ends total clearHandle_ends m below))
  | readStart =>
    refine Ends.below script lighter (wp_local_ends (.setFlags _) fun _ _ _ => ?_)
    exact wp_local_ends .readStart fun _ _ _ => .done () .refl
  | readStop => exact Ends.below script lighter (.done () (Local.setFlags _ m).2.shrinks)
  | opened => exact Ends.below script lighter (wp_local_ends (.setConnectResult _) fun _ _ _ => .done () .refl)
  | accept filtered =>
    simp only [runOp, accept]
    refine wp_local (.setFlags _) fun _ u handled => ?_
    have shrinks := handled.shrinks
    have le := shrinks.le
    split
    · exact push_below total (shrinks.script.trans script) (by omega) light _ rfl
    · simp only [finalizeHandleConnection]
      refine wp_local (.setConnectResult _) fun _ t handled' => ?_
      have shrinks' := (handled.trans handled').shrinks
      have le' := shrinks'.le
      exact Ends.below (shrinks'.script.trans script) (by omega) (total.user t (by omega))

end User

/-- Each action of the user is used up before anything it leads to. -/
theorem user_ends (total : Total h k) : Tame (k + 1) (user h) := by
  intro s light
  let m : State := { s with owner := { s.owner with script := s.owner.script.tail } }
  have read (f : Act → Exec State Unit) : (nextAct >>= f) s = f (s.owner.script.headD .ret) m := rfl
  rw [user]
  refine wp_congr (read _) ?_
  have handled : Shrinks s m := (Local.nextAct s).2.shrinks
  cases plan : s.owner.script with
  | nil => exact .done () handled
  | cons act rest =>
    have less : weight m + 2 < weight s := by
      simp only [weight, m, plan, List.tail_cons, List.length_cons]
      omega
    cases act with
    | ret => exact .done () handled
    | throw => exact .thrown handled
    | stop =>
      refine ⟨fun same => (by cases same), fun absent => ?_, fun returned => by cases returned⟩
      exact (absent (plan ▸ List.mem_cons_self ..)).elim
    | op op =>
      have first := runOp_below total handled.script less light op
      rw [List.headD_cons]
      change wp (runOp h op >>= fun _ => h.user) (Ends s) m
      rw [wp_bind]
      refine wp_mono first ?_
      rintro (_ | why) t ends
      · have below := ends.below trivial
        exact Ends.after (ends.shrinks trivial) (total.user t (by omega))
      · exact ends.halt

/-! ### The members of the request classes -/

section Members
variable (total : Total h k)
include total

private theorem onEstablish_ends (req : Req) : Tame (k + 1) (onEstablish h req) := by
  intro s light
  refine wp_bind_ends (wp_attempt_ends (user_ends total s light)) fun failed m _ => ?_
  rw [wp_when]
  exact ⟨fun _ => .thrown (.frame rfl rfl rfl), fun _ => .done () .refl⟩

private theorem finalizeHandleConnect_ends (err : Option Err) (req : Req) :
    Tame (k + 1) (finalizeHandleConnect h err req) := by
  intro s light
  refine wp_local_ends (.setConnectResult _) fun startErr m handled => ?_
  refine wp_local_ends (.stopConnectTimer req) fun _ t handled' => ?_
  have lighter : weight t < k + 1 := lt_of_le_of_lt (handled.trans handled').shrinks.le light
  rw [wp_get_bind]
  split
  · exact done_ends total req _ t lighter
  · refine cancel_ends total none lighter (fun u le => ?_) resetHandle_ends
    have ends := done_below total req (.notifyOn req (err.or startErr)) (lt_of_le_of_lt le lighter)
    exact ⟨ends.toEnds,
      fun returned => lt_of_lt_of_le (ends.below returned) (Nat.le_of_lt_succ (lt_of_le_of_lt le lighter))⟩

theorem handleEvent_ends (req : Req) (err : Option Err) : Tame (k + 1) (handleEvent h req err) := by
  intro s light
  cases req with
  | connect id timeout =>
    refine Ends.after (m := s.log (.own (.connectEvent (.connect id timeout)))) (.frame rfl rfl rfl) ?_
    refine wp_local_ends (.when (.setFlags _)) fun _ m handled => ?_
    have lighter : weight m < k + 1 := lt_of_le_of_lt handled.shrinks.le light
    refine wp_bind_ends (onEstablish_ends total _ m lighter) fun _ t shrinks => ?_
    exact finalizeHandleConnect_ends total err _ t (lt_of_le_of_lt shrinks.le lighter)
  | write id bufs =>
    refine wp_local_ends (.when (.setFlags _)) fun _ m handled => ?_
    exact done_ends total _ _ m (lt_of_le_of_lt handled.shrinks.le light)
  | shutdown id timeout =>
    refine wp_local_ends (.setShutdown _) fun _ m handled => ?_
    refine wp_local_ends (.stopShutdownTimer _) fun _ t handled' => ?_
    exact done_ends total _ _ t (lt_of_le_of_lt (handled.trans handled').shrinks.le light)
  | _ => exact .done () .refl

private theorem submit_ends (req : Req) : Tame (k + 1) (submit h req) := by
  intro s light
  refine wp_local_ends .nextReply fun reply m handled => ?_
  cases reply with
  | pending => exact .done () (.frame rfl rfl rfl)
  | failed err => exact .done () (.frame rfl rfl rfl)
  | sync err => exact wp_ignoring_ends (handleEvent_ends total req err m (lt_of_le_of_lt handled.shrinks.le light))

private theorem submitShutdown_ends (req : Req) : Tame (k + 1) (submitShutdown h req) := by
  intro s light
  refine wp_local_ends .nextReply fun reply m handled => ?_
  have lighter : weight m < k + 1 := lt_of_le_of_lt handled.shrinks.le light
  cases reply with
  | pending => exact .done () (.frame rfl rfl rfl)
  | failed err => exact wp_ignoring_ends (handleEvent_ends total req _ m lighter)
  | sync err => exact wp_ignoring_ends (handleEvent_ends total req err m lighter)

private theorem exec_ends (req : Req) : Tame (k + 1) (exec h req) := by
  intro s light
  cases req with
  | connect id timeout =>
    refine wp_local_ends (.setFlags _) fun _ m handled => ?_
    have lighter : weight m < k + 1 := lt_of_le_of_lt handled.shrinks.le light
    refine wp_bind_ends ?_ fun _ t shrinks => submit_ends total _ t (lt_of_le_of_lt shrinks.le lighter)
    rw [wp_when]
    exact ⟨fun _ => .done () (.frame rfl rfl rfl), fun _ => .done () .refl⟩
  | write id bufs =>
    simp only [exec, requireWriteState]
    rw [wp_get_bind]
    split
    · exact .done () (.frame rfl rfl rfl)
    · refine wp_bind_ends (.done () (.frame rfl rfl rfl)) fun _ t shrinks => ?_
      exact submit_ends total _ t (lt_of_le_of_lt shrinks.le light)
  | shutdown id timeout =>
    simp only [exec, requireWriteState]
    rw [wp_get_bind]
    split
    · exact .done () (.frame rfl rfl rfl)
    · refine wp_local_ends (.setFlags _) fun _ m handled => ?_
      exact submitShutdown_ends total _ m (lt_of_le_of_lt handled.shrinks.le light)
  | disconnect id => exact done_ends total _ _ s light
  | accept id => exact .done () (.frame rfl rfl rfl)
  | runInOrder id => exact done_ends total _ _ s light

theorem cancelMember_ends (req : Req) (err : Err) : Tame (k + 1) (cancel h req err) := by
  intro s light
  cases req with
  | shutdown id timeout =>
    simp only [cancel]
    rw [wp_get_bind]
    split
    · refine wp_local_ends (.setTimedOut _ _) fun _ m handled => ?_
      exact handleEvent_ends total _ _ m (lt_of_le_of_lt handled.shrinks.le light)
    · exact handleEvent_ends total _ _ s light
  | disconnect | accept => exact done_ends total _ _ s light
  | _ => exact handleEvent_ends total _ _ s light

end Members

/-- Members of a depth that exceeds the work left. -/
theorem members_total (k : ℕ) : ∀ n, k + 2 ≤ n → Total (members n) k := by
  induction k with
  | zero =>
    intro n deep
    refine ⟨?_, ?_, ?_, ?_, ?_, ?_⟩
    · exact fun _ _ none => absurd none (Nat.not_lt_zero _)
    · exact fun _ _ _ none => absurd none (Nat.not_lt_zero _)
    · exact fun _ _ _ none => absurd none (Nat.not_lt_zero _)
    · exact fun _ _ none => absurd none (Nat.not_lt_zero _)
    · exact fun _ none => absurd none (Nat.not_lt_zero _)
    · obtain ⟨n, rfl⟩ := Nat.exists_eq_add_of_le' deep
      exact Nat.succ_pos _
  | succ k ih =>
    intro n deep
    obtain ⟨n, rfl⟩ := Nat.exists_eq_add_of_le' (show 1 ≤ n by omega)
    have total := ih n (by omega)
    refine ⟨exec_ends total, cancelMember_ends total, ?_, ?_, user_ends total, ?_⟩
    · intro req err s light
      cases req with
      | connect | write | shutdown => exact user_ends total s light
      | _ => exact .done () .refl
    · intro f s light
      cases f with
      | notifyOn | code => exact user_ends total s light
      | reset => exact resetHandle_ends s light
      | nothing => exact .done () .refl
    · change k + 1 < n
      omega

end UniEvent.Stream
