import UniEvent.Program.Log
import UniEvent.Program.Reach

/-! # Delayed callbacks

`Delayer`, after `backend/Delayer.h`. A callback is found by the difference of its id and that of the first one in its
list. What a callback does when it is run is scripted: it may delay and cancel, let guards die, and throw. Ids do not
reach the limit of their type.

The trace is ghost, newest event first.
-/

namespace UniEvent

namespace Delayer

open Program Program.Exec

/-- `cb` is not null; the guard is the object that must be alive, if there is one. -/
structure Callback where
  id : ℕ
  cb : Bool := true
  guard : Option ℕ := none
deriving DecidableEq, Repr

inductive Event where
  | add (guard : Option ℕ)
  | cancel (id : ℕ)
  /-- The guard is destroyed. -/
  | kill (guard : ℕ)
  | call
  | invoke (id : ℕ)
  /-- `call` has returned without an exception. -/
  | returned
deriving DecidableEq, Repr

/-- What is done by a callback, or between the calls. -/
inductive Action where
  | add (guard : Option ℕ)
  | cancel (id : ℕ)
  | kill (guard : ℕ)
  | throw
deriving DecidableEq, Repr

end Delayer

/-- The data members of `Delayer`. -/
structure Delayer where
  callbacks : List Delayer.Callback := []
  reserve : List Delayer.Callback := []
  lastid : ℕ := 0
deriving DecidableEq, Repr

namespace Delayer

open Program Program.Exec

structure World where
  self : Delayer := {}
  /-- The local variable of `call`. -/
  i : ℕ := 0
  /-- The guards that were destroyed. -/
  dead : List ℕ := []
  /-- What the callbacks do that are run next. -/
  scripts : List (List Action) := []
  trace : List Event := []
deriving DecidableEq, Repr

namespace World

def log (e : Event) (s : World) : World := { s with trace := e :: s.trace }

end World

/-- The id that is returned is the last one. -/
def add (guard : Option ℕ) (d : Delayer) : Delayer :=
  { d with callbacks := d.callbacks ++ [⟨d.lastid + 1, true, guard⟩], lastid := d.lastid + 1 }

/-- `_delayer_cancel` -/
def delayerCancel (list : List Callback) (id : ℕ) : Bool × List Callback :=
  match list with
  | [] => (false, list)
  | front :: _ =>
    if id < front.id then (false, list)
    else if list.length ≤ id - front.id then (false, list)
    else (true, list.modify (id - front.id) fun row => { row with cb := false })

def cancel (id : ℕ) (d : Delayer) : Bool × Delayer :=
  match delayerCancel d.callbacks id with
  | (true, callbacks) => (true, { d with callbacks := callbacks })
  | (false, callbacks) =>
    let (found, reserve) := delayerCancel d.reserve id
    (found, { d with callbacks := callbacks, reserve := reserve })

def act : Action → Exec World Unit
  | .add guard => modify fun s => { s with self := s.self.add guard }.log (.add guard)
  | .cancel id => modify fun s => { s with self := (s.self.cancel id).2 }.log (.cancel id)
  | .kill guard => modify fun s => { s with dead := guard :: s.dead }.log (.kill guard)
  | .throw => halt .thrown

/-- `row.guard.weak_count() && !row.guard` -/
def World.expired (s : World) (row : Callback) : Prop := ∃ guard, row.guard = some guard ∧ guard ∈ s.dead

instance (s : World) (row : Callback) : Decidable (s.expired row) :=
  match same : row.guard with
  | none => .isFalse fun expired => by
    obtain ⟨_, other, _⟩ := expired
    cases same.symm.trans other
  | some guard => decidable_of_iff (guard ∈ s.dead) (by simp [World.expired, same])

/-- The callbacks that are left are returned to the pool. -/
def World.giveBack (s : World) : World :=
  { s with
    self := { s.self with
      callbacks := if s.i < s.self.reserve.length then s.self.reserve.drop s.i ++ s.self.callbacks else s.self.callbacks
      reserve := [] }
    i := 0 }

/-- An object with a `Delayer` as its base. A callback sees the whole object: what it calls is `act`. -/
structure Object (σ : Type) where
  base : σ → World
  inherited : (World → World) → Exec σ Unit
  act : Action → Exec σ Unit

namespace Object

variable {σ : Type} (object : Object σ)

def acts : List Action → Exec σ Unit
  | [] => pure ()
  | a :: rest => do
    object.act a
    acts rest

/-- `cb();` -/
def invoke (id : ℕ) : Exec σ Unit := do
  object.inherited (World.log (.invoke id))
  let s ← get
  object.inherited fun s => { s with scripts := s.scripts.tail }
  object.acts ((object.base s).scripts.headD [])

/-- `while (i < sz) ..`, with what is left to do -/
def loop : ℕ → Exec σ Unit
  | 0 => pure ()
  | n + 1 => do
    let s ← get
    match (object.base s).self.reserve[(object.base s).i]? with
    | none => pure ()
    | some row => do
      object.inherited fun s => { s with i := s.i + 1 }
      when (row.cb = true ∧ ¬ (object.base s).expired row) (object.invoke row.id)
      loop n

/-- `Delayer::call` -/
def call : Exec σ Unit := do
  object.inherited (World.log .call)
  let s ← get
  assert ((object.base s).self.reserve = [])
  object.inherited fun s =>
    { s with self := { s.self with callbacks := s.self.reserve, reserve := s.self.callbacks }, i := 0 }
  let s ← get
  scopeGuard (object.loop (object.base s).self.reserve.length) (object.inherited World.giveBack)
  object.inherited (World.log .returned)

end Object

/-- A `Delayer` by itself. -/
def plain : Object World where
  base := id
  inherited := modify
  act := act

@[simp] theorem plain_inherited (f : World → World) : plain.inherited f = modify f := rfl

@[simp] theorem plain_act (action : Action) : plain.act action = act action := rfl

/-! ### Runs -/

inductive Op where
  | act (action : Action)
  | call (scripts : List (List Action))
deriving DecidableEq, Repr

def perform : Op → Exec World Unit
  | .act action => act action
  | .call scripts => do
    modify fun s => { s with scripts := scripts }
    plain.call

/-- Exceptions go to whoever has called. -/
def run : List Op → Exec World Unit
  | [] => pure ()
  | op :: ops => do
    ignoring (perform op)
    run ops

end Delayer

end UniEvent
