import UniEvent.Program.Exec

/-! # Calls that mirror each other

`Mirrors R m n` says of two calls over different states that, from states that `R` relates, control leaves both in the
same way and in states that `R` relates again. The rules carry this through the control structure. A call over a large
state that does what another call does over a part of it, and keeps books besides, `Views` the other one.
-/

namespace Program

open Exec

variable {σ τ α β : Type} {R : σ → τ → Prop} {view : σ → τ}

theorem bind_assoc {γ : Type} (m : Exec σ α) (f : α → Exec σ β) (g : β → Exec σ γ) :
    m >>= f >>= g = m >>= fun value => f value >>= g := by
  funext s
  simp only [bind_apply]
  rcases m s with ⟨_ | _, _⟩ <;> rfl

def Mirrors (R : σ → τ → Prop) (m : Exec σ α) (n : Exec τ α) : Prop :=
  ∀ s t, R s t → (n t).1 = (m s).1 ∧ R (m s).2 (n t).2

/-- Seen through `view`, the first call is the second one. -/
abbrev Views (view : σ → τ) : Exec σ α → Exec τ α → Prop := Mirrors fun s t => view s = t

theorem Views.apply {m : Exec σ α} {n : Exec τ α} (views : Views view m n) (s : σ) :
    n (view s) = ((m s).1, view (m s).2) :=
  have mirrors := views s _ rfl
  Prod.ext mirrors.1 mirrors.2.symm

namespace Mirrors

theorem pure (value : α) : Mirrors R (pure value) (pure value) := fun _ _ same => ⟨rfl, same⟩

theorem halt (why : Halt) : Mirrors R (halt why : Exec σ α) (halt why) := fun _ _ same => ⟨rfl, same⟩

theorem modify {f : σ → σ} {g : τ → τ} (kept : ∀ s t, R s t → R (f s) (g t)) : Mirrors R (modify f) (modify g) :=
  fun s t same => ⟨rfl, kept s t same⟩

private theorem results {m : Exec σ α} {n : Exec τ α} {s : σ} {t : τ} (same : (n t).1 = (m s).1 ∧ R (m s).2 (n t).2) :
    ∃ o s' t', m s = (o, s') ∧ n t = (o, t') ∧ R s' t' := ⟨_, _, _, rfl, Prod.ext same.1 rfl, same.2⟩

theorem bind_at {m : Exec σ α} {n : Exec τ α} {f : α → Exec σ β} {g : α → Exec τ β} {s : σ} {t : τ}
    (first : (n t).1 = (m s).1 ∧ R (m s).2 (n t).2) (rest : ∀ value, Mirrors R (f value) (g value)) :
    ((n >>= g) t).1 = ((m >>= f) s).1 ∧ R ((m >>= f) s).2 ((n >>= g) t).2 := by
  obtain ⟨value | why, s', t', left, right, later⟩ := results first
  · rw [bind_apply, bind_apply, left, right]
    exact rest value s' t' later
  · rw [bind_apply, bind_apply, left, right]
    exact ⟨rfl, later⟩

theorem bind {m : Exec σ α} {n : Exec τ α} {f : α → Exec σ β} {g : α → Exec τ β} (first : Mirrors R m n)
    (rest : ∀ value, Mirrors R (f value) (g value)) : Mirrors R (m >>= f) (n >>= g) :=
  fun s t same => bind_at (first s t same) rest

theorem get_bind {f : σ → Exec σ β} {g : τ → Exec τ β} (rest : ∀ s t, R s t → Mirrors R (f s) (g t)) :
    Mirrors R (get >>= f) (get >>= g) := fun s t same => rest s t same s t same

variable {n : Exec τ Unit} {m : Exec σ Unit} {c d : Prop} [Decidable c] [Decidable d]

/-- A step of the books. -/
theorem skip {f : σ → σ} {m : Exec σ β} {n : Exec τ β} (kept : ∀ s t, R s t → R (f s) t) (rest : Mirrors R m n) :
    Mirrors R (Exec.modify f >>= fun _ => m) n := fun s t same => rest (f s) t (kept s t same)

theorem skip_right {f : τ → τ} {m : Exec σ β} {n : Exec τ β} (kept : ∀ s t, R s t → R s (f t)) (rest : Mirrors R m n) :
    Mirrors R m (Exec.modify f >>= fun _ => n) := fun s t same => rest s (f t) (kept s t same)

/-- A last step of the books. -/
theorem then_skip {after : Exec σ Unit} (first : Mirrors R m n)
    (quiet : ∀ s t, R s t → (after s).1 = .done () ∧ R (after s).2 t) : Mirrors R (m >>= fun _ => after) n := by
  intro s t same
  obtain ⟨value | why, s', t', left, right, later⟩ := results (first s t same)
  · rw [bind_apply, left, right]
    exact ⟨(quiet s' t' later).1.symm, (quiet s' t' later).2⟩
  · rw [bind_apply, left, right]
    exact ⟨rfl, later⟩

theorem symm (mirrors : Mirrors R m n) : Mirrors (fun t s => R s t) n m :=
  fun t s same => ⟨(mirrors s t same).1.symm, (mirrors s t same).2⟩

theorem ite {m m' : Exec σ α} {n n' : Exec τ α} (same : c ↔ d) (yes : Mirrors R m n) (no : Mirrors R m' n') :
    Mirrors R (if c then m else m') (if d then n else n') := by
  by_cases holds : c
  · rw [if_pos holds, if_pos (same.mp holds)]
    exact yes
  · rw [if_neg holds, if_neg (holds ∘ same.mpr)]
    exact no

theorem when (same : c ↔ d) (body : Mirrors R m n) : Mirrors R (when c m) (when d n) := ite same body (pure ())

theorem assert (same : c ↔ d) : Mirrors R (assert c) (Exec.assert d) := ite same (pure ()) (halt .aborted)

private theorem attempt_at {s : σ} {t : τ} (body : (n t).1 = (m s).1 ∧ R (m s).2 (n t).2) :
    (Exec.attempt n t).1 = (attempt m s).1 ∧ R (attempt m s).2 (Exec.attempt n t).2 := by
  obtain ⟨value | why, s', t', left, right, later⟩ := results body
  · simp [Exec.attempt, left, right, later]
  · cases why <;> simp [Exec.attempt, left, right, later]

theorem attempt (body : Mirrors R m n) : Mirrors R (attempt m) (Exec.attempt n) :=
  fun s t same => attempt_at (body s t same)

theorem ignoring_at {s : σ} {t : τ} (body : (n t).1 = (m s).1 ∧ R (m s).2 (n t).2) :
    (Exec.ignoring n t).1 = (ignoring m s).1 ∧ R (ignoring m s).2 (Exec.ignoring n t).2 := by
  obtain ⟨o, s', t', left, right, later⟩ := results (attempt_at body)
  rw [Exec.ignoring, Exec.ignoring, bind_apply, bind_apply, left, right]
  cases o <;> exact ⟨rfl, later⟩

theorem scopeGuard {code guard : Exec σ Unit} {code' guard' : Exec τ Unit} (body : Mirrors R code code')
    (after : Mirrors R guard guard') : Mirrors R (scopeGuard code guard) (Exec.scopeGuard code' guard') :=
  body.attempt.bind fun _ => after.bind fun _ => when Iff.rfl (halt .thrown)

end Mirrors

end Program
