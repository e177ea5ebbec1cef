import Mathlib.Logic.Relation
import Mathlib.Tactic.Common

/-! # Calls that return, throw, or never come back

`Exec σ α` is the shallow embedding of an imperative call over a state `σ`: it always yields the
state reached, together with how control left it. A C++ exception is the outcome `thrown`; it can
be kept by `attempt` and nothing else. The other ways of halting are final and cannot be caught: a failed
assertion, the end of an observation, or a recursion budget that has run out. Because the state is
returned in every case, a safety property proved of all outcomes also covers unfinished runs.

`wp m Q s` says that the outcome and final state of `m` started in `s` satisfy `Q`. The rules below
push it through the control structure, so that proofs about a call never unfold the monad.
-/

namespace Program

/-- The ways of leaving a call without a value. Only `thrown` is an ordinary C++ event. -/
inductive Halt where
  | thrown
  | stopped
  | exhausted
  | aborted
deriving DecidableEq, Repr

/-- How control comes back from a call. -/
inductive Outcome (α : Type) where
  | done (value : α)
  | halt (why : Halt)
deriving DecidableEq, Repr

/-- Control is back in the caller, normally or by an exception. -/
def Outcome.Returned {α : Type} : Outcome α → Prop
  | .done _ => True
  | .halt why => why = .thrown

theorem Outcome.returned_of_eq {α : Type} {o : Outcome α} {value : α} (same : o = .done value) : o.Returned := by
  rw [same]
  trivial

instance {α : Type} : DecidablePred (@Outcome.Returned α)
  | .done _ => .isTrue trivial
  | .halt why => inferInstanceAs (Decidable (why = .thrown))

/-- A call over the state `σ`. -/
def Exec (σ α : Type) : Type := σ → Outcome α × σ

namespace Exec

variable {σ α β : Type}

instance : Monad (Exec σ) where
  pure value := fun s => (.done value, s)
  bind m f := fun s =>
    match m s with
    | (.done value, s') => f value s'
    | (.halt why, s') => (.halt why, s')

def get : Exec σ σ := fun s => (.done s, s)

def modify (f : σ → σ) : Exec σ Unit := fun s => (.done (), f s)

def halt (why : Halt) : Exec σ α := fun s => (.halt why, s)

/-- `if (c) m;` -/
def when (c : Prop) [Decidable c] (m : Exec σ Unit) : Exec σ Unit := if c then m else pure ()

/-- `assert(c);` in a build that checks assertions. -/
def assert (c : Prop) [Decidable c] : Exec σ Unit := if c then pure () else halt .aborted

/-- `try { m(); } catch (...) { }`: whether an exception was caught. -/
def attempt (m : Exec σ Unit) : Exec σ Bool := fun s =>
  match m s with
  | (.done (), s') => (.done false, s')
  | (.halt .thrown, s') => (.done true, s')
  | (.halt why, s') => (.halt why, s')

/-- Run `guard` after `code` on both paths, then let the exception go on. -/
def scopeGuard (code guard : Exec σ Unit) : Exec σ Unit := do
  let failed ← attempt code
  guard
  when (failed = true) (halt .thrown)

/-- Run `m` and drop an exception. -/
def ignoring (m : Exec σ Unit) : Exec σ Unit := do
  let _ ← attempt m
  pure ()

end Exec

open Exec

variable {σ α β : Type} {m : Exec σ α} {s : σ} {Q : σ → Prop}

/-- A sequence, run. -/
theorem bind_apply (c : Exec σ α) (f : α → Exec σ β) (s : σ) : (c >>= f) s = match c s with
    | (.done value, t) => f value t
    | (.halt why, t) => (.halt why, t) := rfl

/-- The outcome and final state of `m` from `s` satisfy `Q`. -/
def wp (m : Exec σ α) (Q : Outcome α → σ → Prop) (s : σ) : Prop := Q (m s).1 (m s).2

/-- What `Q` requires after the first call of a sequence. -/
def Next (f : α → Exec σ β) (Q : Outcome β → σ → Prop) : Outcome α → σ → Prop
  | .done value, s => wp (f value) Q s
  | .halt why, s => Q (.halt why) s

@[simp] theorem next_done (f : α → Exec σ β) (Q : Outcome β → σ → Prop) (value : α) (s : σ) :
    Next f Q (.done value) s ↔ wp (f value) Q s := Iff.rfl

@[simp] theorem next_halt (f : α → Exec σ β) (Q : Outcome β → σ → Prop) (why : Halt) (s : σ) :
    Next f Q (.halt why) s ↔ Q (.halt why) s := Iff.rfl

theorem bind_done {f : α → Exec σ β} {s t : σ} {value : α} (first : m s = (.done value, t)) :
    (m >>= f) s = f value t := by
  change (match m s with
    | (.done value, s') => f value s'
    | (.halt why, s') => (.halt why, s')) = _
  rw [first]

theorem wp_mono {Q Q' : Outcome α → σ → Prop} (holds : wp m Q s) (weaker : ∀ o s', Q o s' → Q' o s') :
    wp m Q' s := weaker _ _ holds

theorem wp_congr {m m' : Exec σ α} {Q : Outcome α → σ → Prop} {s s' : σ} (same : m s = m' s') (holds : wp m' Q s') :
    wp m Q s := by
  rw [wp, same]
  exact holds

/-- Calls are deterministic, so guarantees proved separately hold together. -/
theorem wp_and {Q R : Outcome α → σ → Prop} (first : wp m Q s) (second : wp m R s) :
    wp m (fun o t => Q o t ∧ R o t) s := ⟨first, second⟩

@[simp] theorem wp_pure (value : α) (Q : Outcome α → σ → Prop) (s : σ) :
    wp (pure value : Exec σ α) Q s ↔ Q (.done value) s := Iff.rfl

@[simp] theorem wp_get (Q : Outcome σ → σ → Prop) (s : σ) : wp get Q s ↔ Q (.done s) s := Iff.rfl

@[simp] theorem wp_modify (f : σ → σ) (Q : Outcome Unit → σ → Prop) (s : σ) :
    wp (modify f) Q s ↔ Q (.done ()) (f s) := Iff.rfl

@[simp] theorem wp_halt (why : Halt) (Q : Outcome α → σ → Prop) (s : σ) :
    wp (Exec.halt why : Exec σ α) Q s ↔ Q (.halt why) s := Iff.rfl

@[simp] theorem wp_bind (m : Exec σ α) (f : α → Exec σ β) (Q : Outcome β → σ → Prop) (s : σ) :
    wp (m >>= f) Q s ↔ wp m (Next f Q) s := by
  simp only [wp, bind]
  rcases m s with ⟨_ | _, _⟩ <;> rfl

/-- A member that reads the state goes on with what it read. -/
theorem wp_get_bind (f : σ → Exec σ β) (Q : Outcome β → σ → Prop) (s : σ) : wp (get >>= f) Q s ↔ wp (f s) Q s := by
  rw [wp_bind, wp_get, next_done]

/-- A member that updates the state goes on from the updated one. -/
theorem wp_modify_bind (f : σ → σ) (g : Unit → Exec σ β) (Q : Outcome β → σ → Prop) (s : σ) :
    wp (modify f >>= g) Q s ↔ wp (g ()) Q (f s) := by
  rw [wp_bind, wp_modify, next_done]

theorem wp_when {c : Prop} [Decidable c] {m : Exec σ Unit} {Q : Outcome Unit → σ → Prop} :
    wp (when c m) Q s ↔ (c → wp m Q s) ∧ (¬ c → Q (.done ()) s) := by
  by_cases h : c <;> simp [when, h]

theorem wp_assert {c : Prop} [Decidable c] {Q : Outcome Unit → σ → Prop} :
    wp (Exec.assert c) Q s ↔ (c → Q (.done ()) s) ∧ (¬ c → Q (.halt .aborted) s) := by
  by_cases h : c <;> simp [Exec.assert, h]

/-- What `Q` requires of a call whose exception is kept. -/
def Kept (Q : Outcome Bool → σ → Prop) : Outcome Unit → σ → Prop
  | .done (), s => Q (.done false) s
  | .halt .thrown, s => Q (.done true) s
  | .halt why, s => Q (.halt why) s

@[simp] theorem wp_attempt (m : Exec σ Unit) (Q : Outcome Bool → σ → Prop) (s : σ) :
    wp (attempt m) Q s ↔ wp m (Kept Q) s := by
  simp only [wp, attempt]
  rcases m s with ⟨_ | _ | _, _⟩ <;> rfl

/-- A call whose exception is kept does not throw. -/
theorem wp_attempt_kept (m : Exec σ Unit) (s : σ) : wp (attempt m) (fun o _ => o ≠ .halt .thrown) s := by
  rw [wp_attempt]
  refine wp_mono (Q := fun _ _ => True) trivial ?_
  rintro (_ | why) t _
  · simp [Kept]
  · cases why <;> simp [Kept]

/-- Calls that do not throw, one after the other. -/
theorem wp_bind_kept {f : α → Exec σ β} (first : wp m (fun o _ => o ≠ .halt .thrown) s)
    (second : ∀ value t, wp (f value) (fun o _ => o ≠ .halt .thrown) t) :
    wp (m >>= f) (fun o _ => o ≠ .halt .thrown) s := by
  rw [wp_bind]
  refine wp_mono first ?_
  rintro (value | why) t kept
  · exact second value t
  · exact fun same => kept (by cases same; rfl)

/-- A call whose exception is dropped does not throw. -/
theorem wp_ignoring_quiet (m : Exec σ Unit) (s : σ) : wp (ignoring m) (fun o _ => o ≠ .halt .thrown) s :=
  wp_bind_kept (wp_attempt_kept m s) fun _ _ same => by cases same

/-- What holds whenever control is back holds also when the exception is kept. -/
theorem wp_attempt_back {m : Exec σ Unit} (first : wp m (fun o t => o.Returned → Q t) s) :
    wp (attempt m) (fun o t => o.Returned → Q t) s := by
  rw [wp_attempt]
  refine wp_mono first ?_
  rintro (_ | why) t back
  · exact fun _ => back trivial
  · cases why with
    | thrown => exact fun _ => back rfl
    | _ => exact back

/-- What holds whenever control is back does not depend on the value. -/
theorem wp_map_back {f : α → β} (first : wp m (fun o t => o.Returned → Q t) s) :
    wp (m >>= fun value => pure (f value)) (fun o t => o.Returned → Q t) s := by
  rw [wp_bind]
  refine wp_mono first ?_
  rintro (_ | why) t back
  · exact fun _ => back trivial
  · exact back

/-- What holds whenever control is back holds also when the exception is dropped. -/
theorem wp_ignoring {m : Exec σ Unit} (first : wp m (fun o t => o.Returned → Q t) s) :
    wp (ignoring m) (fun o t => o.Returned → Q t) s :=
  wp_map_back (f := fun _ => ()) (wp_attempt_back first)

end Program
