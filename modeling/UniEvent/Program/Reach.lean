import UniEvent.Program.Exec

/-! # Calls that only make steps

When code is to be compared with a relation `Step` between states, every call is shown to lead along the
relation, however control leaves it. The rules below do this for the control structure, so that only
assignments remain to be matched with steps.
-/

namespace Program

open Exec Relation

variable {σ α β : Type} {Step : σ → σ → Prop} {s : σ} {f : β → Exec σ α} {c : Exec σ β} {m m' : σ}
  {code guard : Exec σ Unit}

/-- The state reached, by whatever outcome, is reached by steps from `s`. -/
def Reached (Step : σ → σ → Prop) (s : σ) : Outcome α → σ → Prop := fun _ t => ReflTransGen Step s t

/-- From every state the call makes steps only. -/
def Steps (Step : σ → σ → Prop) (m : Exec σ α) : Prop := ∀ s, wp m (Reached Step s) s

theorem wp_after {c : Exec σ α} (path : ReflTransGen Step s m) (rest : wp c (Reached Step m) m') :
    wp c (Reached Step s) m' := wp_mono rest fun _ _ => path.trans

/-- The second of two calls may use that the first one made steps. -/
theorem wp_bind_along (first : wp c (Reached Step s) m)
    (second : ∀ value t, ReflTransGen Step s t → wp (f value) (Reached Step t) t) :
    wp (c >>= f) (Reached Step s) m := by
  rw [wp_bind]
  refine wp_mono first ?_
  rintro (value | why) t path
  · exact wp_after path (second value t path)
  · exact path

theorem wp_bind_reached (first : wp c (Reached Step s) m) (second : ∀ value, Steps Step (f value)) :
    wp (c >>= f) (Reached Step s) m :=
  wp_bind_along first fun value t _ => second value t

theorem Steps.pure (value : α) : Steps Step (pure value : Exec σ α) := fun _ => .refl

theorem Steps.halt (why : Halt) : Steps Step (Exec.halt why : Exec σ α) := fun _ => .refl

theorem Steps.bind (first : Steps Step c) (second : ∀ value, Steps Step (f value)) :
    Steps Step (c >>= f) := fun s => wp_bind_reached (first s) second

theorem Steps.get {f : σ → Exec σ α} (rest : ∀ s, wp (f s) (Reached Step s) s) : Steps Step (Exec.get >>= f) := by
  intro s
  rw [wp_bind, wp_get]
  exact rest s

theorem Steps.modify {f : σ → σ} (step : ∀ s, Step s (f s)) : Steps Step (Exec.modify f) := fun s => .single (step s)

theorem Steps.when {c : Prop} [Decidable c] {m : Exec σ Unit} (inner : Steps Step m) : Steps Step (when c m) := by
  intro s
  rw [wp_when]
  exact ⟨fun _ => inner s, fun _ => .refl⟩

theorem wp_attempt_reached {c : Exec σ Unit} (first : wp c (Reached Step s) m) : wp (attempt c) (Reached Step s) m := by
  rw [wp_attempt]
  refine wp_mono first ?_
  rintro (_ | why) t path
  · exact path
  · cases why <;> exact path

theorem Steps.attempt {c : Exec σ Unit} (inner : Steps Step c) : Steps Step (attempt c) :=
  fun s => wp_attempt_reached (inner s)

theorem wp_scopeGuard_reached (first : wp code (Reached Step s) m)
    (second : ∀ t, ReflTransGen Step s t → wp guard (Reached Step t) t) :
    wp (scopeGuard code guard) (Reached Step s) m :=
  wp_bind_along (wp_attempt_reached first) fun _ t path => wp_bind_reached (second t path) fun _ => .when (.halt _)

theorem Steps.ignoring {c : Exec σ Unit} (inner : Steps Step c) : Steps Step (ignoring c) :=
  .bind (.attempt inner) fun _ => .pure _

theorem wp_scopeGuard_back {Q R : σ → Prop} (path : wp code (Reached Step s) m)
    (first : wp code (fun o t => o.Returned → Q t) m)
    (second : ∀ t, ReflTransGen Step s t → Q t → wp guard (fun o u => o.Returned → R u) t) :
    wp (scopeGuard code guard) (fun o u => o.Returned → R u) m := by
  simp only [scopeGuard]
  rw [wp_bind]
  refine wp_mono (wp_and (wp_and (wp_attempt_reached path) (wp_attempt_back first)) (wp_attempt_kept code m)) ?_
  rintro (failed | why) t ⟨⟨path, back⟩, kept⟩
  · rw [next_done, wp_bind]
    refine wp_mono (second t path (back trivial)) ?_
    rintro (_ | why) u holds
    · rw [next_done, wp_when]
      exact ⟨fun _ _ => holds trivial, fun _ _ => holds trivial⟩
    · exact holds
  · intro returned
    exact absurd (congrArg Outcome.halt returned) kept

/-! ### Calls that come back

`R` relates the state at a call to the one where control is back, with a value or with an exception.
-/

section Backed

variable {R : σ → σ → Prop}

def Backed (R : σ → σ → Prop) (s : σ) : Outcome α → σ → Prop := fun o t => o.Returned → R s t

theorem wp_backed_after [IsTrans σ R] {c : Exec σ α} (first : R s m) (rest : wp c (Backed R m) m') :
    wp c (Backed R s) m' := wp_mono rest fun _ _ back returned => IsTrans.trans _ _ _ first (back returned)

theorem wp_bind_backed [IsTrans σ R] (first : wp c (Backed R s) m)
    (second : ∀ value t, R s t → wp (f value) (Backed R t) t) : wp (c >>= f) (Backed R s) m := by
  rw [wp_bind]
  refine wp_mono first ?_
  rintro (value | why) t back
  · exact wp_backed_after (back trivial) (second value t (back trivial))
  · exact back

theorem wp_when_backed [Std.Refl R] {c : Prop} [Decidable c] {m : Exec σ Unit} (inner : c → wp m (Backed R s) s) :
    wp (when c m) (Backed R s) s := wp_when.mpr ⟨inner, fun _ _ => Std.Refl.refl s⟩

theorem wp_scopeGuard_backed [Std.Refl R] [IsTrans σ R] (first : wp code (Backed R s) m)
    (second : ∀ t, R s t → wp guard (Backed R t) t) : wp (scopeGuard code guard) (Backed R s) m :=
  wp_bind_backed (wp_attempt_back first) fun _ t related =>
    wp_bind_backed (second t related) fun _ u _ => wp_when_backed fun _ _ => Std.Refl.refl u

end Backed

/-- What holds at first and is kept by every step holds wherever a call leads. -/
theorem Reached.invariant {t : σ} {o : Outcome α} {I : σ → Prop} (path : Reached Step s o t)
    (kept : ∀ s t, Step s t → I s → I t) (holds : I s) : I t := by
  have walk : ReflTransGen Step s t := path
  induction walk with
  | refl => exact holds
  | tail _ step ih => exact kept _ _ step (ih ‹_›)

/-! ### Good runs

`Good` is a property of what has happened, so that it holds of every earlier state. `Le` relates a state to the later
ones. Nothing is claimed of a run that does not stay good to its end.
-/

section

variable {Le : σ → σ → Prop} {Good : σ → Prop} {R : Outcome α → σ → Prop}

/-- If the run is good, the call ends as told. -/
abbrev Surely (Le : σ → σ → Prop) (Good : σ → Prop) (s : σ) (R : Outcome α → σ → Prop) (o : Outcome α) (t : σ) : Prop :=
  Le s t ∧ (Good t → R o t)

theorem surely_mono {c : Exec σ α} {P : Outcome α → σ → Prop} (holds : wp c (Surely Le Good s P) m)
    (weaker : ∀ o t, P o t → R o t) : wp c (Surely Le Good s R) m :=
  wp_mono holds fun o t surely => ⟨surely.1, fun good => weaker o t (surely.2 good)⟩

/-- A run that is not good stays so. -/
theorem surely_of_bad [IsTrans σ Le] (back : ∀ s t, Le s t → Good t → Good s) {c : Exec σ α} (bad : ¬ Good m)
    (before : Le s m) (path : wp c (fun _ t => Le m t) m) : wp c (Surely Le Good s R) m :=
  wp_mono path fun _ t later => ⟨IsTrans.trans _ _ _ before later, fun good => absurd (back m t later good) bad⟩

/-- Two calls one after the other; the second may use what holds after the first. -/
theorem surely_bind [IsTrans σ Le] (back : ∀ s t, Le s t → Good t → Good s) {P : Outcome β → σ → Prop}
    (first : wp c (Surely Le Good s P) m) (path : ∀ v t, Le s t → wp (f v) (fun _ u => Le t u) t)
    (halted : ∀ why t, P (.halt why) t → R (.halt why) t)
    (second : ∀ v t, Le s t → Good t → P (.done v) t → wp (f v) (Surely Le Good s R) t) :
    wp (c >>= f) (Surely Le Good s R) m := by
  rw [wp_bind]
  refine wp_mono first ?_
  rintro (v | why) t ⟨before, after⟩
  · rw [next_done]
    by_cases good : Good t
    · exact second v t before good (after good)
    · exact surely_of_bad back good before (path v t before)
  · exact ⟨before, fun good => halted why t (after good)⟩

/-- The state from which the later ones are counted may be moved back. -/
theorem surely_after [IsTrans σ Le] {c : Exec σ α} (before : Le s m) (holds : wp c (Surely Le Good m R) m') :
    wp c (Surely Le Good s R) m' := wp_mono holds fun _ _ surely => ⟨IsTrans.trans _ _ _ before surely.1, surely.2⟩

end

/-! ### Contracts

A contract is a pair of preorders: `Move` between the state at a call and wherever it leads, and `Return` for a
call that comes back with a value. A call keeps a contract if its parts do.
-/

variable {Move Return : σ → σ → Prop}

/-- The call keeps the contract. -/
def Makes (Move Return : σ → σ → Prop) (m : Exec σ α) : Prop :=
  ∀ s, wp m (fun o t => Move s t ∧ ∀ value, o = .done value → Return s t) s

theorem Makes.mono {Move' Return' : σ → σ → Prop} {m : Exec σ α} (makes : Makes Move Return m)
    (move : ∀ s t, Move s t → Move' s t) (back : ∀ s t, Return s t → Return' s t) : Makes Move' Return' m :=
  fun s => ⟨move _ _ (makes s).1, fun value same => back _ _ ((makes s).2 value same)⟩

theorem Makes.modify {f : σ → σ} (move : ∀ s, Move s (f s)) (back : ∀ s, Return s (f s)) :
    Makes Move Return (Exec.modify f) := fun s => ⟨move s, fun _ _ => back s⟩

theorem Makes.get {f : σ → Exec σ α} (rest : ∀ s, Makes Move Return (f s)) : Makes Move Return (Exec.get >>= f) := by
  intro s
  rw [wp_bind, wp_get]
  exact rest s s

/-- A call that looks at an answer. -/
theorem Makes.option {f : Option β → Exec σ α} (present : ∀ value, Makes Move Return (f (some value)))
    (absent : Makes Move Return (f none)) (answer : Option β) : Makes Move Return (f answer) := by
  cases answer with
  | none => exact absent
  | some value => exact present value

section

variable [Std.Refl Move] [Std.Refl Return]

theorem Makes.pure (value : α) : Makes Move Return (pure value : Exec σ α) :=
  fun s => ⟨Std.Refl.refl s, fun _ _ => Std.Refl.refl s⟩

omit [Std.Refl Return] in
theorem Makes.halt (why : Halt) : Makes Move Return (Exec.halt why : Exec σ α) := fun s => ⟨Std.Refl.refl s, nofun⟩

theorem Makes.when {c : Prop} [Decidable c] {m : Exec σ Unit} (inner : Makes Move Return m) :
    Makes Move Return (when c m) := by
  intro s
  rw [wp_when]
  exact ⟨fun _ => inner s, fun _ => ⟨Std.Refl.refl s, fun _ _ => Std.Refl.refl s⟩⟩

end

theorem Makes.bind [IsTrans σ Move] [IsTrans σ Return] (first : Makes Move Return c)
    (second : ∀ value, Makes Move Return (f value)) : Makes Move Return (c >>= f) := by
  intro s
  rw [wp_bind]
  refine wp_mono (first s) ?_
  rintro (value | why) t ⟨moved, back⟩
  · rw [next_done]
    refine wp_mono (second value t) ?_
    rintro o u ⟨moved', back'⟩
    exact ⟨IsTrans.trans _ _ _ moved moved', fun v same => IsTrans.trans _ _ _ (back value rfl) (back' v same)⟩
  · exact ⟨moved, nofun⟩

/-- A call that keeps a contract, and what follows it. -/
theorem Makes.seq {Q : Outcome α → σ → Prop} {s : σ} (first : Makes Move Return c)
    (halted : ∀ why t, Move s t → Q (.halt why) t) (second : ∀ value t, Move s t → Return s t → wp (f value) Q t) :
    wp (c >>= f) Q s := by
  rw [wp_bind]
  refine wp_mono (first s) ?_
  rintro (value | why) t ⟨moved, back⟩
  · exact second value t moved (back value rfl)
  · exact halted why t moved

end Program
