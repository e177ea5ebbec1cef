import UniEvent.Model.WorkQueue
import UniEvent.Program.Machine

/-! # A work is registered while it is active

`Work::queue` registers the object before it asks the backend, and does not take that back when the backend refuses.
Where no backend refuses, the list of works holds each active object once and no other.
-/

namespace UniEvent.WorkQueue

variable {ι : Type*} [DecidableEq ι] {s t : State ι}

namespace State

/-- The list of works has each active object once and no other. -/
def Registered (s : State ι) : Prop := ∀ i, s.works.count i = if (s.work i).active then 1 else 0

/-- The list of works and what is active are the same. -/
def Same (s t : State ι) : Prop := t.works = s.works ∧ ∀ i, (t.work i).active = (s.work i).active

/-- A registered state in which the backend is at work for the active objects, and no others. -/
structure Sound (s : State ι) : Prop where
  running : s.crashed = false
  registered : s.Registered
  working : ∀ i, (s.work i).impl = some { active := true } ↔ (s.work i).active = true

/-! ### What the functions do -/

variable {i : ι}

private theorem queue_active (active : (s.work i).active = true) (reply : Option ErrorCode) :
    s.queue i reply = (some .operationInProgress, s) := by
  rw [queue, if_pos active]

theorem queue_accepted (idle : (s.work i).active = false) : s.queue i none =
      (none, (s.registerWork i).set i { impl := some { active := true }, active := true }) := by
  rw [queue, if_neg (by rw [idle]; exact Bool.false_ne_true)]
  rfl

private theorem queue_refused (idle : (s.work i).active = false) (err : ErrorCode) : s.queue i (some err) =
      (some err, (s.registerWork i).set i { s.work i with impl := some (s.impl i) }) := by
  rw [queue, if_neg (by rw [idle]; exact Bool.false_ne_true)]
  rfl

theorem Sound.queue_accepted (sound : s.Sound) (idle : (s.work i).active = false) : (s.queue i none).2.Sound := by
  rw [State.queue_accepted idle]
  refine ⟨sound.running, ?_, ?_⟩
  · intro j
    have before := sound.registered j
    by_cases same : j = i
    · subst same
      rw [idle] at before
      simpa [set, registerWork] using before
    · simpa [set, registerWork, Function.update_of_ne same, List.count_singleton, Ne.symm same] using before
  · intro j
    by_cases same : j = i
    · subst same
      simp [set]
    · simpa [set, registerWork, Function.update_of_ne same] using sound.working j

/-- `handle_after_work` of an active object, when the backend has let go of it. -/
theorem Sound.handleAfterWork (sound : s.Sound) (active : (s.work i).active = true) {impl : Option UVWork}
    (released : impl ≠ some { active := true }) (err : Option ErrorCode) :
    ((s.set i { s.work i with impl := impl }).handleAfterWork i err).Sound := by
  refine ⟨sound.running, ?_, ?_⟩
  · intro j
    have before := sound.registered j
    by_cases same : j = i
    · subst same
      rw [active] at before
      simp [State.handleAfterWork, set, unregisterWork, before]
    · simpa [State.handleAfterWork, set, unregisterWork, Function.update_of_ne same, List.count_erase_of_ne same]
        using before
  · intro j
    by_cases same : j = i
    · subst same
      simpa [State.handleAfterWork, set, unregisterWork] using released
    · simpa [State.handleAfterWork, set, unregisterWork, Function.update_of_ne same] using sound.working j

theorem Sound.cancel (sound : s.Sound) (i : ι) (canceled : Bool) : (s.cancel i canceled).Sound := by
  rw [State.cancel]
  split
  · next active =>
    rw [(sound.working i).mpr active]
    dsimp only
    split
    · have released : (none : Option UVWork) ≠ some { active := true } := nofun
      exact sound.handleAfterWork active released _
    · exact sound
  · exact sound

end State

/-! ### Runs -/

/-- A backend that is asked to queue a work does so. -/
def Accepts (s : State ι) : Move ι → Prop
  | .queue i reply => (s.work i).active = true ∨ reply = none
  | _ => True

instance (s : State ι) (move : Move ι) : Decidable (Accepts s move) := by
  apply Move.casesOn (motive := fun move => Decidable (Accepts s move)) <;> intros <;> unfold Accepts <;> infer_instance

theorem State.Sound.step {move : Move ι} (sound : s.Sound) (accepts : Accepts s move)
    (stepped : step s move = some t) : t.Sound := by
  cases move with
  | queue i reply =>
    simp only [WorkQueue.step, sound.running, Bool.false_eq_true, ↓reduceIte] at stepped
    cases stepped
    cases active : (s.work i).active with
    | true =>
      rw [State.queue_active active]
      exact sound
    | false =>
      obtain refused | rfl := accepts
      · rw [active] at refused
        cases refused
      · exact sound.queue_accepted active
  | cancel i canceled =>
    simp only [WorkQueue.step, sound.running, Bool.false_eq_true, ↓reduceIte] at stepped
    cases stepped
    exact sound.cancel i canceled
  | afterWork i status =>
    simp only [WorkQueue.step, sound.running, Bool.false_eq_true, ↓reduceIte] at stepped
    split at stepped
    · next atWork =>
      cases stepped
      have released : some { active := false } ≠ some ({ active := true } : UVWork) := nofun
      exact sound.handleAfterWork ((sound.working i).mp atWork) released status
    · cases stepped
  | ret =>
    simp only [WorkQueue.step, sound.running, Bool.false_eq_true, ↓reduceIte] at stepped
    split at stepped
    · cases stepped
    · cases stepped
      exact ⟨rfl, sound.registered, sound.working⟩

private theorem sound_new : ({} : State ι).Sound := ⟨rfl, fun _ => rfl, by simp⟩

/-- An error of `queue` leaves the list and what is active alone unless the backend refuses. -/
theorem State.queue_same_iff (s : State ι) (i : ι) (reply : Option ErrorCode) :
    ((s.queue i reply).1.isSome = true → s.Same (s.queue i reply).2) ↔ Accepts s (.queue i reply) := by
  cases active : (s.work i).active with
  | true => simp [State.queue_active active, Accepts, active, State.Same]
  | false =>
    cases reply with
    | none => simp [State.queue_accepted active, Accepts]
    | some err => simp [State.queue_refused active, Accepts, active, State.Same, State.set, State.registerWork]

/-- In every run in which no backend refuses, the list of works holds each active object once and no other, no call goes
through a null pointer, and the next `queue` that returns an error changes nothing exactly if the backend does not
refuse. -/
theorem registered_of_accepts {moves : List (Move ι)} (ran : run moves = some s)
    (accepts : Program.Meets step Accepts moves {}) :
    s.crashed = false ∧ s.Registered ∧ ∀ i reply,
      ((s.queue i reply).1.isSome = true → s.Same (s.queue i reply).2) ↔ Accepts s (.queue i reply) := by
  have sound : s.Sound :=
    accepts.keeps (fun _ _ _ accepted sound stepped => State.Sound.step sound accepted stepped) sound_new ran
  exact ⟨sound.running, sound.registered, s.queue_same_iff⟩

/-- An object is queued, completed, and queued again from its callback, which throws. -/
def requeued : List (Move ℕ) := [.queue 7 none, .queue 7 none, .afterWork 7 none, .queue 7 none, .ret]

theorem requeued_registered :
    ∃ s, run requeued = some s ∧ Program.Meets step Accepts requeued {} ∧ s.works = [7] ∧ s.Registered := by
  have accepts : Program.Meets step Accepts requeued {} := by decide
  refine ⟨_, rfl, accepts, rfl, ?_⟩
  exact (registered_of_accepts rfl accepts).2.1

/-- The backend refuses a work: it stays in the list, though it is not active. -/
theorem refused_registered :
    ∃ s, run [Move.queue 7 (some (.backend 12))] = some s ∧ (({} : State ℕ).queue 7 (some (.backend 12))).1.isSome ∧
      s.frames = [] ∧ s.works = [7] ∧ (s.work 7).active = false ∧ ¬ s.Registered := by
  refine ⟨_, rfl, rfl, rfl, rfl, rfl, ?_⟩
  intro registered
  exact absurd (registered 7) (by decide)

end UniEvent.WorkQueue
