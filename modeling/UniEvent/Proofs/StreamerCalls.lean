import UniEvent.Model.Streamer

/-! # Contracts of the two ends

A contract that the calls of a streamer keep whenever the methods of its ends do is kept for any two ends, by
induction on how deep the calls are nested. The first such contract says that the trace grows and that the limits
stay.
-/

namespace UniEvent.Streamer

open Program Program.Exec Relation

variable {ε : Type} {e : Ends ε} {s t : World ε}

section

variable {M R : World ε → World ε → Prop}

theorem Ends.Keeps.mono {Mv Rt : World ε → World ε → Prop} (keeps : e.Keeps Mv Rt) (move : ∀ s t, Mv s t → M s t)
    (back : ∀ s t, Rt s t → R s t) : e.Keeps M R where
  inputStart := keeps.inputStart.mono move back
  inputStop := keeps.inputStop.mono move back
  startReading := keeps.startReading.mono move back
  stopReading := keeps.stopReading.mono move back
  outputStart := keeps.outputStart.mono move back
  outputStop := keeps.outputStop.mono move back
  write data := (keeps.write data).mono move back
  finishEvent err := (keeps.finishEvent err).mono move back

variable [Std.Refl M] [Std.Refl R]

omit [Std.Refl R] in
theorem Ends.spent_keeps : (Ends.spent : Ends ε).Keeps M R where
  inputStart := .halt _
  inputStop := .halt _
  startReading := .halt _
  stopReading := .halt _
  outputStart := .halt _
  outputStop := .halt _
  write _ := .halt _
  finishEvent _ := .halt _

variable [IsTrans _ M] [IsTrans _ R] (env : ∀ (s : World ε) env, M s { s with env := env } ∧ R s { s with env := env })
  (calls : ∀ e : Ends ε, e.Keeps M R → ∀ c, Makes M R (perform e c))

include env calls

theorem Ends.Tied.keeps (tied : e.Tied) : e.Keeps M R := by
  induction tied with
  | spent => exact spent_keeps
  | @layer e inner _ methods ih =>
    refine methods.mono (fun s t path => ?_) fun s t path => ?_
    · rw [← reflTransGen_eq_self (r := M)]
      refine ReflTransGen.mono (r := Move inner) (p := M) (fun s t move => ?_) s t path
      cases move with
      | env new => exact (env s new).1
      | call c => exact (calls inner ih c s).1
    · rw [← reflTransGen_eq_self (r := R)]
      refine ReflTransGen.mono (r := Return inner) (p := R) (fun s t back => ?_) s t path
      cases back with
      | env new => exact (env s new).2
      | call c done => exact (calls inner ih c s).2 () done

/-- Every run keeps the contract. -/
theorem turns_keep (path : ReflTransGen Turn s t) : M s t := by
  induction path with
  | refl => exact Std.Refl.refl s
  | tail _ turn ih =>
    obtain ⟨e, tied, move⟩ := turn
    refine IsTrans.trans _ _ _ ih ?_
    cases move with
    | env new => exact (env _ new).1
    | call c => exact (calls e (tied.keeps env calls) c _).1

/-- Every run whose calls all come back. -/
theorem backs_keep (path : ReflTransGen Back s t) : R s t := by
  induction path with
  | refl => exact Std.Refl.refl s
  | tail _ turn ih =>
    obtain ⟨e, tied, back⟩ := turn
    refine IsTrans.trans _ _ _ ih ?_
    cases back with
    | env new => exact (env _ new).2
    | call c done => exact (calls e (tied.keeps env calls) c _).2 () done

end

/-! ### What every call does -/

/-- The trace grows, and the limits stay. -/
structure Grows (s t : World ε) : Prop where
  trace : s.trace <:+ t.trace
  maxBuf : t.self.maxBuf = s.self.maxBuf
  thrBuf : t.self.thrBuf = s.self.thrBuf

instance : Std.Refl (Grows (ε := ε)) := ⟨fun _ => ⟨List.suffix_refl _, rfl, rfl⟩⟩

instance : IsTrans (World ε) Grows :=
  ⟨fun _ _ _ first second => ⟨first.trace.trans second.trace, second.maxBuf.trans first.maxBuf,
    second.thrBuf.trans first.thrBuf⟩⟩

theorem Grows.log (s : World ε) (event : Event) : Grows s (s.log event) := ⟨List.suffix_cons _ _, rfl, rfl⟩

/-- What a call does first. -/
def Call.enter : Call → World ε → World ε
  | .start => World.log .start
  | .stop => World.log .stop
  | .read data err => World.onRead data err
  | .write err => World.onWrite err
  | .eof => World.log .eof

theorem enter_grows (c : Call) (s : World ε) : Grows s (c.enter s) := by
  cases c with
  | start | stop | eof => exact .log s _
  | read data err =>
    cases err with
    | none => exact ⟨List.suffix_cons _ _, rfl, rfl⟩
    | some err => exact ⟨List.suffix_cons _ _, rfl, rfl⟩
  | write err =>
    cases err with
    | none => exact ⟨List.suffix_cons _ _, rfl, rfl⟩
    | some err => exact ⟨List.suffix_cons _ _, rfl, rfl⟩

/-- An assignment that keeps the limits. -/
theorem makes_grow {f : World ε → World ε} (grows : ∀ s, Grows s (f s)) : Makes Grows Grows (modify f) :=
  .modify grows grows

theorem log_grows (event : Event) : Makes (Grows (ε := ε)) Grows (modify (World.log event)) :=
  makes_grow fun s => .log s event

/-- The events that calls begin with. -/
def Event.isCall : Event → Bool
  | .start | .stop | .read _ _ | .write _ | .eof => true
  | _ => false

/-! ### What a call does by itself

A call assigns to the fields and notes what it does. If a contract allows this, then it is kept by the calls whenever
it is kept by the methods of the ends.
-/

structure Notes (s t : World ε) : Prop where
  env : t.env = s.env
  trace : t.trace = s.trace ∨ ∃ event, Event.isCall event = false ∧ t.trace = event :: s.trace
  maxBuf : t.self.maxBuf = s.self.maxBuf
  thrBuf : t.self.thrBuf = s.self.thrBuf

theorem Notes.grows (notes : Notes s t) : Grows s t := by
  refine ⟨?_, notes.maxBuf, notes.thrBuf⟩
  rcases notes.trace with same | ⟨event, _, longer⟩
  · exact same ▸ List.suffix_refl _
  · rw [longer]
    exact List.suffix_cons _ _

theorem Notes.log (s : World ε) {event : Event} (inner : event.isCall = false) : Notes s (s.log event) :=
  ⟨rfl, .inr ⟨event, inner, rfl⟩, rfl, rfl⟩

theorem begin_notes (s : World ε) : Notes s s.begin := ⟨rfl, .inr ⟨.started, rfl, rfl⟩, rfl, rfl⟩

theorem hold_notes (s : World ε) : Notes s s.hold := ⟨rfl, .inr ⟨.paused, rfl, rfl⟩, rfl, rfl⟩

theorem release_notes (s : World ε) : Notes s s.release := ⟨rfl, .inr ⟨.resumed none, rfl, rfl⟩, rfl, rfl⟩

theorem finished_notes (err : Option Failure) (s : World ε) : Notes s (s.finished err) :=
  ⟨rfl, .inr ⟨.finish err, rfl, rfl⟩, rfl, rfl⟩

section

variable {M R : World ε → World ε → Prop} [Std.Refl M] [Std.Refl R] [IsTrans _ M] [IsTrans _ R]
  (plain : ∀ s t : World ε, Notes s t → M s t ∧ R s t) (keeps : e.Keeps M R)

include plain

omit [Std.Refl M] [Std.Refl R] [IsTrans _ M] [IsTrans _ R] in
theorem assign_makes {f : World ε → World ε} (notes : ∀ s, Notes s (f s)) : Makes M R (modify f) :=
  .modify (fun s => (plain s _ (notes s)).1) fun s => (plain s _ (notes s)).2

omit [Std.Refl M] [Std.Refl R] [IsTrans _ M] [IsTrans _ R] in
theorem log_makes {event : Event} (inner : event.isCall = false) : Makes M R (modify (World.log event)) :=
  assign_makes plain fun s => .log s inner

private theorem queueSize_makes : Makes M R (queueSize e) := .get fun _ => .bind (log_makes plain rfl) fun _ => .pure _

include keeps

theorem finish_makes (err : Option Failure) : Makes M R (finish e err) :=
  .get fun _ =>
  .when (.bind (log_makes plain rfl) fun _ => .bind keeps.inputStop fun _ => .bind keeps.outputStop fun _ =>
    .bind (assign_makes plain (finished_notes err)) fun _ => keeps.finishEvent err)

private theorem throttle_makes : Makes M R (throttle e) :=
  .get fun _ => .when (.bind (queueSize_makes plain) fun _ => .when (.bind (log_makes plain rfl) fun _ =>
    .bind keeps.stopReading fun _ => assign_makes plain hold_notes))

private theorem unthrottle_makes : Makes M R (unthrottle e) := by
  refine .get fun _ => .when (.bind (queueSize_makes plain) fun _ => .when (.bind (log_makes plain rfl) fun _ =>
    .bind keeps.startReading fun rerr => ?_))
  cases rerr with
  | some rerr => exact .bind (log_makes plain rfl) fun _ => finish_makes plain keeps _
  | none => exact assign_makes plain release_notes

/-- The call, behind what it does first. -/
theorem perform_makes (c : Call) : ∃ m : Exec (World ε) Unit,
    (perform e c = do
      modify c.enter
      m) ∧ Makes M R m := by
  cases c with
  | start =>
    refine ⟨_, rfl, .bind keeps.inputStart fun err => ?_⟩
    cases err with
    | some err => exact .bind (log_makes plain rfl) fun _ => keeps.finishEvent _
    | none =>
      refine .bind keeps.outputStart fun err => ?_
      cases err with
      | some err => exact .bind keeps.inputStop fun _ => .bind (log_makes plain rfl) fun _ => keeps.finishEvent _
      | none => exact assign_makes plain begin_notes
  | stop => exact ⟨_, rfl, finish_makes plain keeps _⟩
  | read data err =>
    refine ⟨_, rfl, ?_⟩
    cases err with
    | some err => exact finish_makes plain keeps _
    | none =>
      refine .bind (keeps.write data) fun werr => .bind (log_makes plain rfl) fun _ => ?_
      cases werr with
      | some werr => exact finish_makes plain keeps _
      | none => exact throttle_makes plain keeps
  | write err =>
    refine ⟨_, rfl, ?_⟩
    cases err with
    | some err => exact finish_makes plain keeps _
    | none =>
      refine .get fun s => ?_
      split
      · exact finish_makes plain keeps _
      · exact unthrottle_makes plain keeps
  | eof =>
    refine ⟨_, rfl, .get fun s => ?_⟩
    split
    · exact finish_makes plain keeps _
    · exact assign_makes plain fun _ => ⟨rfl, .inl rfl, rfl, rfl⟩

end

theorem plain_grows (s t : World ε) (notes : Notes s t) : Grows s t ∧ Grows s t := ⟨notes.grows, notes.grows⟩

variable (grows : e.Keeps Grows Grows)

include grows

theorem finish_grows (err : Option Failure) : Makes Grows Grows (finish e err) := finish_makes plain_grows grows err

theorem throttle_grows : Makes Grows Grows (throttle e) := throttle_makes plain_grows grows

theorem unthrottle_grows : Makes Grows Grows (unthrottle e) := unthrottle_makes plain_grows grows

theorem perform_enters (c : Call) (s : World ε) : Grows (c.enter s) (perform e c s).2 := by
  obtain ⟨m, same, makes⟩ := perform_makes plain_grows grows c
  rw [same]
  exact (makes (c.enter s)).1

theorem perform_grows (c : Call) : Makes Grows Grows (perform e c) := by
  intro s
  have both : Grows s (perform e c s).2 := IsTrans.trans _ _ _ (enter_grows c s) (perform_enters grows c s)
  exact ⟨both, fun _ _ => both⟩

omit grows

theorem tied_grows (tied : e.Tied) : e.Keeps Grows Grows :=
  tied.keeps (fun _ _ => ⟨⟨List.suffix_refl _, rfl, rfl⟩, ⟨List.suffix_refl _, rfl, rfl⟩⟩) fun _ keeps c =>
    perform_grows keeps c

theorem turns_grow (path : ReflTransGen Turn s t) : Grows s t :=
  turns_keep (R := Grows) (fun _ _ => ⟨⟨List.suffix_refl _, rfl, rfl⟩, ⟨List.suffix_refl _, rfl, rfl⟩⟩)
    (fun _ keeps c => perform_grows keeps c) path

end UniEvent.Streamer
