import UniEvent.Soundness.DelayerOnce
import UniEvent.Soundness.DelayerWakeups

/-! # Idle events settle what was delayed

The delayer runs its callbacks once and in order, and the idle handle is started while there are any. Together: whatever
has happened, the next iteration of the loop runs everything that was delayed before it.
-/

namespace UniEvent

open Program Program.Exec

namespace Delayer

/-- The last call began when this many callbacks had been delayed. -/
def Since (count : ℕ) (s : World) : Prop := base s.trace = count ∧ count ≤ issued s.trace

variable {count : ℕ}

private theorem act_since (action : Action) : Sustains (Since count) (act action) := by
  cases action with
  | add => exact .modify fun s since => ⟨since.1, since.2.trans (Nat.le_succ _)⟩
  | cancel | kill => exact .modify fun s since => since
  | throw => exact .throw

private theorem acts_since (actions : List Action) : Sustains (Since count) (plain.acts actions) := by
  induction actions with
  | nil => exact .pure ()
  | cons action rest ih => exact (act_since action).bind fun _ => ih

private theorem loop_since (left : ℕ) : Sustains (Since count) (plain.loop left) := by
  induction left with
  | zero => exact .pure ()
  | succ left ih =>
    refine .get fun s => ?_
    split
    · exact .pure ()
    · have invoked (id : ℕ) : Sustains (Since count) (plain.invoke id) :=
        .bind (.modify fun _ since => since) fun _ => .get fun _ => .bind (.modify fun _ since => since) fun _ =>
          acts_since _
      exact .bind (.modify fun _ since => since) fun _ => (Sustains.when (invoked _)).bind fun _ => ih

/-- A call that returns leaves nothing to do of what was delayed before it. -/
theorem call_settles {s : World} (rest : Rest s) : wp plain.call (fun o t => o = .done () →
    ∀ id, 1 ≤ id → id ≤ issued s.trace → Past id t.trace) s := by
  have returned : wp plain.call (fun o t => o = .done () → ∃ earlier, t.trace = .returned :: earlier ∧
      base earlier = issued s.trace ∧ issued s.trace ≤ issued earlier) s := by
    simp only [Object.call, plain_inherited]
    rw [wp_modify_bind, wp_get_bind, wp_bind, wp_assert]
    refine ⟨fun _ => ?_, fun full => absurd rest.reserve full⟩
    rw [next_done, wp_modify_bind, wp_get_bind, wp_bind]
    have guarded (left : ℕ) :
      Sustains (Since (issued s.trace)) (scopeGuard (plain.loop left) (modify World.giveBack)) :=
      (loop_since left).scopeGuard (.modify fun _ since => since)
    refine wp_mono (guarded _ _ ⟨rfl, Nat.le_refl _⟩) ?_
    rintro (value | why) t ⟨-, since⟩
    · exact fun _ => ⟨t.trace, rfl, since⟩
    · rintro ⟨⟩
  intro done id positive old
  obtain ⟨earlier, trace, begun, grown⟩ := returned done
  have along := (call_keeps rest).1
  rw [trace] at along ⊢
  exact Past.cons (along.1 id positive (old.trans begun.ge)) _ (old.trans grown)

end Delayer

namespace UVDelayer

/-- Between the events. -/
def Settled (s : World) : Prop := Awaited s ∧ Delayer.Rest s.base

private theorem perform_settled (op : Op) : Sustains Settled (perform op) := by
  rintro s ⟨awaited, rest⟩
  obtain ⟨returned, awaited⟩ := perform_awaited op s awaited
  refine ⟨returned, awaited, ?_⟩
  rcases perform_views op s with ⟨seen, same⟩ | idle
  · have kept := (Delayer.perform_keeps rest seen).2
    rw [same] at kept
    exact kept returned
  · rw [idle]
    exact rest

theorem run_settled (ops : List Op) : Sustains Settled (run ops) := by
  induction ops with
  | nil => exact .pure ()
  | cons op ops ih =>
    exact ((perform_settled op).attempt.bind fun _ => .pure ()).bind fun _ => ih

/-- In every run callbacks are run in the order in which they were delayed, each at most once; and after it, an
iteration of the loop without an exception leaves none behind, but for those that were canceled or have lost their
guards. -/
theorem run_settles (ops : List Op) (scripts : List (List Delayer.Action)) :
    Along Delayer.OnceAt (run ops {}).2.base.trace ∧
      wp (perform (.idle scripts)) (fun o t => o = .done () → ∀ id, 1 ≤ id →
        id ≤ Delayer.issued (run ops {}).2.base.trace → Delayer.Past id t.base.trace) (run ops {}).2 := by
  have new : Settled {} := ⟨⟨rfl, fun waiting => absurd rfl waiting⟩, Delayer.initial_rest⟩
  obtain ⟨-, awaited, rest⟩ := run_settled ops {} new
  refine ⟨rest.along, ?_⟩
  generalize (run ops {}).2 = s at awaited rest
  rw [perform, wp_get_bind, wp_when]
  constructor
  · intro started
    rw [wp_bind, wp_inherited, wp_modify, next_done]
    have settles := Delayer.call_settles (s := { s.base with scripts }) { rest with }
    rw [wp, handleIdle_views.apply { s with base := { s.base with scripts } }] at settles
    exact settles
  · -- nothing is waited for
    intro stopped _ id positive old
    have empty : s.base.self.callbacks = [] := not_imp_comm.mp awaited.started stopped
    apply rest.past id positive
    rw [Delayer.World.first, rest.reserve, empty, ← rest.issued]
    exact Nat.lt_add_right _ (Nat.lt_succ_of_le old)

end UVDelayer

end UniEvent
