import UniEvent.Program.Exec

/-! # Invariants of a call

`Keeps I m s` says that `I` holds when the call `m` from `s` ends, however it ends. Calls that never come back are
included, so that the invariant also holds where an observation stops in the middle of a call. `Leaves I H m s` asks for
`I` only if control comes back, and for `I` or `H` otherwise. `Sustains I m` says that control always comes back, with
`I` again.
-/

namespace Program

open Exec

variable {σ α β : Type} {I J : σ → Prop} {s : σ} {m : Exec σ Unit} {f : α → Exec σ β} {code guard : Exec σ Unit}
  {c : Prop}

def Keeps (I : σ → Prop) (m : Exec σ α) (s : σ) : Prop := wp m (fun _ t => I t) s

theorem Keeps.mono {m : Exec σ α} (kept : Keeps I m s) (weaker : ∀ t, I t → J t) : Keeps J m s := weaker _ kept

theorem Keeps.pure {value : α} (holds : I s) : Keeps I (pure value) s := holds

theorem Keeps.halt {why : Halt} (holds : I s) : Keeps I (halt why : Exec σ α) s := holds

theorem Keeps.modify {f : σ → σ} (holds : I (f s)) : Keeps I (modify f) s := holds

/-- The second call may start from more than the whole keeps. -/
theorem Keeps.seq {m : Exec σ α} (first : Keeps I m s) (weaker : ∀ t, I t → J t)
    (rest : ∀ value t, I t → Keeps J (f value) t) : Keeps J (m >>= f) s := by
  rw [Keeps, wp_bind]
  refine wp_mono first ?_
  rintro (value | why) t holds
  · exact rest value t holds
  · exact weaker t holds

theorem Keeps.bind {m : Exec σ α} (first : Keeps I m s) (rest : ∀ value t, I t → Keeps I (f value) t) :
    Keeps I (m >>= f) s :=
  first.seq (fun _ => id) rest

theorem Keeps.get {f : σ → Exec σ β} (rest : Keeps I (f s) s) : Keeps I (get >>= f) s := rest

theorem Keeps.modified {f : σ → σ} {m : Exec σ β} (rest : Keeps I m (f s)) :
    Keeps I (Exec.modify f >>= fun _ => m) s := rest

theorem Keeps.when [Decidable c] (holds : I s) (body : c → Keeps I m s) :
    Keeps I (when c m) s := wp_when.mpr ⟨body, fun _ => holds⟩

theorem Keeps.asserted [Decidable c] {m : Exec σ β} (holds : I s) (rest : c → Keeps I m s) :
    Keeps I (assert c >>= fun _ => m) s := by
  rw [Keeps, wp_bind, wp_assert]
  exact ⟨rest, fun _ => holds⟩

theorem Keeps.attempt (body : Keeps I m s) : Keeps I (attempt m) s := by
  rw [Keeps, wp_attempt]
  refine wp_mono body ?_
  rintro (value | why) t holds
  · exact holds
  · cases why <;> exact holds

theorem Keeps.ignoring (body : Keeps I m s) : Keeps I (ignoring m) s :=
  body.attempt.bind fun _ _ holds => .pure holds

theorem Keeps.scopeGuard (body : Keeps I code s) (after : ∀ t, I t → Keeps I guard t) :
    Keeps I (scopeGuard code guard) s :=
  body.attempt.bind fun _ t holds => (after t holds).bind fun _ _ holds => .when holds fun _ => .halt holds

/-! ### Calls that may end outside of the invariant -/

variable {H : σ → Prop}

def Leaves (I H : σ → Prop) (m : Exec σ α) (s : σ) : Prop := wp m (fun o t => I t ∨ ¬ o.Returned ∧ H t) s

theorem Leaves.keeps {m : Exec σ α} (leaves : Leaves I I m s) : Keeps I m s :=
  wp_mono leaves fun _ _ ends => ends.elim id And.right

theorem Leaves.pure {value : α} (holds : I s) : Leaves I H (pure value) s := .inl holds

theorem Leaves.halt {why : Halt} (holds : I s) : Leaves I H (halt why : Exec σ α) s := .inl holds

theorem Leaves.modify {f : σ → σ} (holds : I (f s)) : Leaves I H (Exec.modify f) s := .inl holds

theorem Leaves.bind {m : Exec σ α} (first : Leaves I H m s) (rest : ∀ value t, I t → Leaves I H (f value) t) :
    Leaves I H (m >>= f) s := by
  rw [Leaves, wp_bind]
  refine wp_mono first ?_
  rintro (value | why) t (holds | ⟨lost, halted⟩)
  · exact rest value t holds
  · exact absurd trivial lost
  · exact .inl holds
  · exact .inr ⟨lost, halted⟩

theorem Leaves.get {f : σ → Exec σ β} (rest : Leaves I H (f s) s) : Leaves I H (Exec.get >>= f) s := rest

theorem Leaves.modified {f : σ → σ} {m : Exec σ β} (rest : Leaves I H m (f s)) :
    Leaves I H (Exec.modify f >>= fun _ => m) s := rest

theorem Leaves.when [Decidable c] (holds : I s) (body : c → Leaves I H m s) :
    Leaves I H (when c m) s := wp_when.mpr ⟨body, fun _ => .inl holds⟩

theorem Leaves.asserted [Decidable c] {m : Exec σ β} (holds : I s) (rest : c → Leaves I H m s) :
    Leaves I H (assert c >>= fun _ => m) s := by
  rw [Leaves, wp_bind, wp_assert]
  exact ⟨rest, fun _ => .inl holds⟩

theorem Leaves.attempt (body : Leaves I H m s) : Leaves I H (attempt m) s := by
  rw [Leaves, wp_attempt]
  refine wp_mono body ?_
  rintro (value | why) t (holds | ⟨lost, halted⟩)
  · exact .inl holds
  · exact absurd trivial lost
  · cases why <;> exact .inl holds
  · cases why with
    | thrown => exact absurd rfl lost
    | _ => exact .inr ⟨lost, halted⟩

theorem Leaves.ignoring (body : Leaves I H m s) : Leaves I H (ignoring m) s :=
  body.attempt.bind fun _ _ holds => .pure holds

theorem Leaves.scopeGuard (body : Leaves I H code s) (after : ∀ t, I t → Leaves I H guard t) :
    Leaves I H (scopeGuard code guard) s :=
  body.attempt.bind fun _ t holds => (after t holds).bind fun _ _ holds => .when holds fun _ => .halt holds

/-! ### Calls that come back -/

def Sustains (I : σ → Prop) (m : Exec σ α) : Prop := ∀ s, I s → wp m (fun o t => o.Returned ∧ I t) s

theorem Sustains.pure (value : α) : Sustains I (pure value) := fun _ holds => ⟨trivial, holds⟩

theorem Sustains.throw : Sustains I (Exec.halt .thrown : Exec σ α) := fun _ holds => ⟨rfl, holds⟩

theorem Sustains.modify {f : σ → σ} (kept : ∀ s, I s → I (f s)) : Sustains I (Exec.modify f) :=
  fun s holds => ⟨trivial, kept s holds⟩

theorem Sustains.bind {m : Exec σ α} (first : Sustains I m) (rest : ∀ value, Sustains I (f value)) :
    Sustains I (m >>= f) := by
  intro s holds
  rw [wp_bind]
  refine wp_mono (first s holds) ?_
  rintro (value | why) t ⟨returned, again⟩
  · exact rest value t again
  · exact ⟨returned, again⟩

theorem Sustains.get {f : σ → Exec σ β} (rest : ∀ s, Sustains I (f s)) : Sustains I (Exec.get >>= f) :=
  fun s holds => rest s s holds

theorem Sustains.when [Decidable c] (body : Sustains I m) : Sustains I (when c m) :=
  fun s holds => wp_when.mpr ⟨fun _ => body s holds, fun _ => ⟨trivial, holds⟩⟩

theorem Sustains.attempt (body : Sustains I m) : Sustains I (attempt m) := by
  intro s holds
  rw [wp_attempt]
  refine wp_mono (body s holds) ?_
  rintro (value | why) t ⟨returned, again⟩
  · exact ⟨trivial, again⟩
  · cases returned
    exact ⟨trivial, again⟩

theorem Sustains.scopeGuard (body : Sustains I code) (after : Sustains I guard) : Sustains I (scopeGuard code guard) :=
  body.attempt.bind fun _ => after.bind fun _ => .when .throw

end Program
