import UniEvent.Model.Delayer

/-! # Delayed callbacks over an idle handle

`UVDelayer`, after `UVDelayer.h`: a `Delayer` with an idle handle of the backend, which reports idle events while it is
started. Callbacks delay others through `UVDelayer::add`.
-/

namespace UniEvent.UVDelayer

open Program Program.Exec

open Delayer (Action)

structure World where
  base : Delayer.World := {}
  /-- Whether the handle is started, if there is one. -/
  handle : Option Bool := none
deriving DecidableEq, Repr

/-- A member function of `Delayer`. -/
def inherited {α : Type} (m : Exec Delayer.World α) : Exec World α := fun s =>
  ((m s.base).1, { s with base := (m s.base).2 })

namespace World

def callbacks (s : World) : List Delayer.Callback := s.base.self.callbacks

/-- `new_idle`, if there is no handle, and `start`. -/
def start (s : World) : World := { s with handle := some true }

/-- A handle that has reported an event is there. -/
def stop (s : World) : World := { s with handle := s.handle.map fun _ => false }

end World

def add (guard : Option ℕ) : Exec World Unit := do
  modify fun s => if s.callbacks = [] then s.start else s
  inherited (Delayer.act (.add guard))

def act : Action → Exec World Unit
  | .add guard => add guard
  | action => inherited (Delayer.act action)

def object : Delayer.Object World where
  base := World.base
  inherited f := inherited (modify f)
  act := act

def handleIdle : Exec World Unit := do
  object.call
  modify fun s => if s.callbacks = [] then s.stop else s

/-! ### Runs -/

inductive Op where
  | act (action : Action)
  /-- An iteration of the event loop, and what the callbacks do. -/
  | idle (scripts : List (List Action))
deriving DecidableEq, Repr

def perform : Op → Exec World Unit
  | .act action => act action
  | .idle scripts => do
    let s ← get
    when (s.handle = some true) do
      inherited (modify fun s => { s with scripts := scripts })
      handleIdle

/-- Exceptions go to whoever has called. -/
def run : List Op → Exec World Unit
  | [] => pure ()
  | op :: ops => do
    ignoring (perform op)
    run ops

end UniEvent.UVDelayer
