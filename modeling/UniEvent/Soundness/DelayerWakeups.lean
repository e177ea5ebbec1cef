import UniEvent.Model.UVDelayer
import UniEvent.Program.Keep
import UniEvent.Program.View

/-! # Delayed callbacks are waited for

`UVDelayer::add` starts the idle handle when it sees an empty list, and `handle_idle` stops it when it leaves one. While
the callbacks run, the list has been swapped away, and an exception refills it behind the back of `add`; but the handle
stays started throughout, since nothing else stops it.
-/

namespace UniEvent.UVDelayer

open Program Program.Exec

open Delayer (Action)

variable {s : World}

/-! ### The handle adds to the delayer -/

theorem inherited_views {α : Type} (m : Exec Delayer.World α) : Views World.base (inherited m) m := by
  rintro s _ rfl
  exact ⟨rfl, rfl⟩

theorem wp_inherited {α : Type} {m : Exec Delayer.World α} {Q : Outcome α → World → Prop} :
    wp (inherited m) Q s ↔ wp m (fun o base => Q o { s with base }) s.base := Iff.rfl

private theorem wp_object {f : Delayer.World → Delayer.World} {Q : Outcome Unit → World → Prop} :
    wp (object.inherited f) Q s ↔ Q (.done ()) { s with base := f s.base } := Iff.rfl

private theorem act_views (action : Action) : Views World.base (act action) (Delayer.act action) := by
  cases action with
  | add guard =>
    refine .skip (fun s t same => Eq.trans ?_ same) (inherited_views _)
    split <;> rfl
  | _ => exact inherited_views _

private theorem acts_views (actions : List Action) :
    Views World.base (object.acts actions) (Delayer.plain.acts actions) := by
  induction actions with
  | nil => exact .pure ()
  | cons action rest ih => exact (act_views action).bind fun _ => ih

private theorem invoke_views (id : ℕ) : Views World.base (object.invoke id) (Delayer.plain.invoke id) := by
  refine (inherited_views _).bind fun _ => .get_bind ?_
  rintro s _ rfl
  exact (inherited_views _).bind fun _ => acts_views _

private theorem loop_views (left : ℕ) : Views World.base (object.loop left) (Delayer.plain.loop left) := by
  induction left with
  | zero => exact .pure ()
  | succ left ih =>
    refine .get_bind ?_
    rintro s _ rfl
    cases here : s.base.self.reserve[s.base.i]? with
    | none =>
      simp only [show (object.base s).self.reserve[(object.base s).i]? = none from here,
        show (Delayer.plain.base s.base).self.reserve[(Delayer.plain.base s.base).i]? = none from here]
      exact .pure ()
    | some row =>
      simp only [show (object.base s).self.reserve[(object.base s).i]? = some row from here,
        show (Delayer.plain.base s.base).self.reserve[(Delayer.plain.base s.base).i]? = some row from here]
      exact (inherited_views _).bind fun _ => (Mirrors.when Iff.rfl (invoke_views _)).bind fun _ => ih

private theorem call_views : Views World.base object.call Delayer.plain.call := by
  refine (inherited_views _).bind fun _ => .get_bind ?_
  rintro s _ rfl
  refine (Mirrors.assert Iff.rfl).bind fun _ => (inherited_views _).bind fun _ => .get_bind ?_
  rintro t _ rfl
  exact ((loop_views _).scopeGuard (inherited_views _)).bind fun _ => inherited_views _

theorem handleIdle_views : Views World.base handleIdle Delayer.plain.call := by
  refine call_views.then_skip fun s t same => ⟨rfl, Eq.trans ?_ same⟩
  change (if s.callbacks = [] then s.stop else s).base = s.base
  split <;> rfl

/-- An operation is one of the delayer, or an iteration of a loop whose handle is stopped. -/
theorem perform_views (op : Op) (s : World) :
    (∃ seen, Delayer.perform seen s.base = ((perform op s).1, (perform op s).2.base)) ∨
    perform op s = (.done (), s) := by
  cases op with
  | act action => exact .inl ⟨.act action, (act_views action).apply s⟩
  | idle scripts =>
    by_cases started : s.handle = some true
    · left
      have views : Views World.base (do inherited (modify fun s => { s with scripts := scripts }); handleIdle)
          (Delayer.perform (.call scripts)) := (inherited_views _).bind fun _ => handleIdle_views
      have performed : perform (.idle scripts) s
          = (do inherited (modify fun s => { s with scripts := scripts }); handleIdle : Exec World Unit) s :=
        congrFun (if_pos started) s
      rw [performed]
      exact ⟨.call scripts, views.apply s⟩
    · right
      exact congrFun (if_neg started) s

/-- Every run over the idle handle is a run of the delayer, in which `call` comes with the idle events. -/
theorem run_views (ops : List Op) (s : World) : ∃ calls, (Delayer.run calls s.base).2 = (run ops s).2.base := by
  induction ops generalizing s with
  | nil => exact ⟨[], rfl⟩
  | cons op ops ih =>
    rcases perform_views op s with ⟨seen, same⟩ | idle
    · obtain ⟨way, base⟩ := Mirrors.ignoring_at (R := fun (s : World) t => s.base = t)
        ⟨congrArg Prod.fst same, (congrArg Prod.snd same).symm⟩
      cases performed : ignoring (perform op) s with
      | mk outcome t =>
        rw [performed] at way base
        have first : ignoring (Delayer.perform seen) s.base = (outcome, t.base) := Prod.ext way base.symm
        cases outcome with
        | done value =>
          obtain ⟨calls, rest⟩ := ih t
          refine ⟨seen :: calls, ?_⟩
          simp only [run, Delayer.run, bind_apply, performed, first, rest]
        | halt why =>
          refine ⟨[seen], ?_⟩
          simp only [run, Delayer.run, bind_apply, performed, first]
    · obtain ⟨calls, rest⟩ := ih s
      refine ⟨calls, rest.trans ?_⟩
      simp only [run, ignoring, bind_apply, attempt, idle]
      rfl

/-! ### The handle -/

private theorem delayerCancel_length (list : List Delayer.Callback) (id : ℕ) :
    (Delayer.delayerCancel list id).2.length = list.length := by
  cases list with
  | nil => rfl
  | cons front rest =>
    rw [Delayer.delayerCancel]
    split
    · rfl
    · split
      · rfl
      · exact List.length_modify ..

/-- A cancel leaves empty lists empty, and no others. -/
theorem cancel_lengths (d : Delayer) (id : ℕ) :
    (d.cancel id).2.callbacks.length = d.callbacks.length ∧ (d.cancel id).2.reserve.length = d.reserve.length := by
  have callbacks := delayerCancel_length d.callbacks id
  have reserve := delayerCancel_length d.reserve id
  rw [Delayer.cancel]
  split
  · next found =>
    rw [found] at callbacks
    exact ⟨callbacks, rfl⟩
  · next missed =>
    rw [missed] at callbacks
    exact ⟨callbacks, reserve⟩

/-- Between the events, whatever is delayed is waited for. -/
structure Awaited (s : World) : Prop where
  reserve : s.base.self.reserve = []
  started : s.callbacks ≠ [] → s.handle = some true

private theorem act_awaited (action : Action) : Sustains Awaited (act action) := by
  intro s awaited
  cases action with
  | add guard =>
    have begun : (if s.callbacks = [] then s.start else s).base = s.base ∧
        (if s.callbacks = [] then s.start else s).handle = some true := by
      split
      · exact ⟨rfl, rfl⟩
      · next waiting => exact ⟨rfl, awaited.started waiting⟩
    refine ⟨trivial, ?_, fun _ => begun.2⟩
    change (if s.callbacks = [] then s.start else s).base.self.reserve = []
    rw [begun.1]
    exact awaited.reserve
  | cancel id =>
    obtain ⟨callbacks, reserve⟩ := cancel_lengths s.base.self id
    refine ⟨trivial, ?_, fun waiting => awaited.started fun empty => waiting ?_⟩
    · rw [awaited.reserve] at reserve
      exact List.length_eq_zero_iff.mp reserve
    · rw [World.callbacks] at empty
      rw [empty] at callbacks
      exact List.length_eq_zero_iff.mp callbacks
  | kill guard => exact ⟨trivial, awaited.reserve, awaited.started⟩
  | throw => exact ⟨rfl, awaited⟩

/-! ### While the callbacks run -/

def Started (s : World) : Prop := s.handle = some true

theorem inherited_started {f : Delayer.World → Delayer.World} : Sustains Started (inherited (modify f)) :=
  fun _ started => ⟨trivial, started⟩

private theorem act_started (action : Action) : Sustains Started (act action) := by
  cases action with
  | add guard =>
    refine Sustains.bind (.modify fun s started => ?_) fun _ => inherited_started
    split
    · rfl
    · exact started
  | cancel | kill => exact inherited_started
  | throw => exact fun _ started => ⟨rfl, started⟩

private theorem acts_started (actions : List Action) : Sustains Started (object.acts actions) := by
  induction actions with
  | nil => exact .pure ()
  | cons action rest ih => exact (act_started action).bind fun _ => ih

private theorem invoke_started (id : ℕ) : Sustains Started (object.invoke id) :=
  inherited_started.bind fun _ => .get fun _ => inherited_started.bind fun _ => acts_started _

private theorem loop_started (left : ℕ) : Sustains Started (object.loop left) := by
  induction left with
  | zero => exact .pure ()
  | succ left ih =>
    refine .get fun s => ?_
    split
    · exact .pure ()
    · exact inherited_started.bind fun _ => (Sustains.when (invoke_started _)).bind fun _ => ih

/-- The callbacks that are left go back, and the handle is still started. -/
theorem guarded_started (started : Started s) (left : ℕ) :
    wp (scopeGuard (object.loop left) (object.inherited Delayer.World.giveBack))
      (fun o t => o.Returned ∧ Started t ∧ t.base.self.reserve = []) s := by
  rw [scopeGuard, wp_bind, wp_attempt]
  refine wp_mono (loop_started left s started) ?_
  rintro (value | why) t ⟨returned, again⟩
  · exact ⟨trivial, again, rfl⟩
  · cases returned
    exact ⟨rfl, again, rfl⟩

private theorem call_started (started : Started s) (empty : s.base.self.reserve = []) :
    wp object.call (fun o t => o.Returned ∧ Started t ∧ t.base.self.reserve = []) s := by
  rw [Delayer.Object.call, wp_bind, wp_object, next_done, wp_get_bind, wp_bind, wp_assert]
  refine ⟨fun _ => ?_, fun full => absurd empty full⟩
  rw [next_done, wp_bind, wp_object, next_done, wp_get_bind, wp_bind]
  refine wp_mono (guarded_started ?_ _) ?_
  · exact started
  · rintro (value | why) t ended
    · exact ended
    · exact ended

/-- An idle event leaves the handle stopped if there is nothing left, and started otherwise. -/
theorem handleIdle_awaited (started : Started s) (empty : s.base.self.reserve = []) :
    wp handleIdle
      (fun o t => o.Returned ∧ Awaited t ∧ (o = .done () → t.callbacks = [] → t.handle = some false)) s := by
  rw [handleIdle, wp_bind]
  refine wp_mono (call_started started empty) ?_
  rintro (value | why) t ⟨returned, again, noneLeft⟩
  · rw [next_done, wp_modify]
    split
    · next finished =>
      refine ⟨trivial, ⟨noneLeft, fun waiting => absurd finished waiting⟩, fun _ _ => ?_⟩
      rw [World.stop, again]
      rfl
    · next waiting => exact ⟨trivial, ⟨noneLeft, fun _ => again⟩, fun _ finished => absurd finished waiting⟩
  · exact ⟨returned, ⟨noneLeft, fun _ => again⟩, nofun⟩

/-- An idle event comes while the handle is started. -/
theorem idle_awaited (awaited : Awaited s) (scripts : List (List Action)) :
    wp (perform (.idle scripts)) (fun o t => o.Returned ∧ Awaited t ∧
      (s.handle = some true → o = .done () → t.callbacks = [] → t.handle = some false)) s := by
  rw [perform, wp_get_bind, wp_when]
  constructor
  · intro started
    rw [wp_bind, wp_inherited, wp_modify, next_done]
    refine wp_mono (handleIdle_awaited started awaited.reserve) ?_
    exact fun _ _ ended => ⟨ended.1, ended.2.1, fun _ => ended.2.2⟩
  · intro stopped
    exact ⟨trivial, awaited, fun started => absurd started stopped⟩

theorem perform_awaited (op : Op) : Sustains Awaited (perform op) := by
  cases op with
  | act action => exact act_awaited action
  | idle scripts => exact fun s awaited => wp_mono (idle_awaited awaited scripts) fun _ _ ended => ⟨ended.1, ended.2.1⟩

private theorem run_awaited (ops : List Op) : Sustains Awaited (run ops) := by
  induction ops with
  | nil => exact .pure ()
  | cons op ops ih =>
    exact ((perform_awaited op).attempt.bind fun _ => .pure ()).bind fun _ => ih

/-- Every run comes to its end. Whatever is delayed then is waited for, and the next idle event, if it ends without an
exception and leaves nothing, leaves the handle stopped. -/
theorem run_wakes (ops : List Op) :
    wp (run ops) (fun o s => o.Returned ∧ (s.callbacks ≠ [] → s.handle = some true) ∧
      ∀ scripts, wp (perform (.idle scripts)) (fun o t => s.handle = some true → o = .done () → t.callbacks = [] →
        t.handle = some false) s) {} := by
  have new : Awaited {} := ⟨rfl, fun waiting => absurd rfl waiting⟩
  refine wp_mono (run_awaited ops {} new) ?_
  intro o s ended
  refine ⟨ended.1, ended.2.started, fun scripts => ?_⟩
  exact wp_mono (idle_awaited ended.2 scripts) fun _ _ idle => idle.2.2

/-- A callback delays another and the next one throws: the handle stays started, and a later event stops it. -/
example : ((run [.act (.add none), .act (.add none), .idle [[.add none, .throw]]] {}).2.handle = some true) ∧
    (run [.act (.add none), .act (.add none), .idle [[.add none, .throw]], .idle []] {}).2.handle = some false := by
  decide +kernel

end UniEvent.UVDelayer
