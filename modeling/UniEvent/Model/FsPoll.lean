import UniEvent.Model.Queue

/-! # Polling a file

`FsPoll`, after `FsPoll.cc`. The timer asks for the stat of a file again and again, and a listener is told when what
came back has changed. A request that is still in flight when the poll is stopped may come back later; the next start
takes a new one then.

What a listener does is scripted: it may stop the poll, or stop it and start it again, and it may throw, which leaves
out the rest of the callback of the stat request. `reports` is ghost: what came back last since the start, what has come
back, and what was fired.
-/

namespace UniEvent

/-- The data members of `FsPoll`; `active` is that of its timer, and requests are numbered. -/
structure FsPoll (σ : Type) where
  active : Bool := false
  fsr : ℕ := 0
  prev : σ
  prevErr : Option Err := none
  fetched : Bool := false
deriving DecidableEq, Repr

namespace FsPoll

variable {σ : Type}

/-- What a stat request comes back with. -/
inductive Outcome (σ : Type) where
  | stat (value : σ)
  | failed (err : Err)
deriving DecidableEq, Repr

def Outcome.stat? : Outcome σ → Option σ
  | .stat value => some value
  | .failed _ => none

def Outcome.err? : Outcome σ → Option Err
  | .stat _ => none
  | .failed err => some err

inductive Fired (σ : Type) where
  | start (cur : Option σ) (err : Option Err)
  | poll (prev cur : Option σ) (err : Option Err)
deriving DecidableEq, Repr

inductive Act where
  | nothing
  | stop
  | restart
deriving DecidableEq, Repr

/-- What a listener does, and whether it throws then. -/
structure Reaction where
  act : Act := .nothing
  throws : Bool := false
deriving DecidableEq, Repr

structure Report (σ : Type) where
  last : Option (Outcome σ)
  now : Outcome σ
  fired : List (Fired σ) := []
deriving DecidableEq, Repr

structure World (σ : Type) where
  self : FsPoll σ
  /-- The requests that are in flight. -/
  busy : List ℕ := []
  lastfsr : ℕ := 0
  /-- Whether the backend gives the next request back that is canceled. -/
  cancels : List Bool := []
  /-- What the listener does when it is called next. -/
  reactions : List Reaction := []
  last : Option (Outcome σ) := none
  reports : List (Report σ) := []
deriving DecidableEq, Repr

namespace World

/-- `fsr->stat(..)` -/
def doStat (s : World σ) : World σ := { s with busy := s.self.fsr :: s.busy }

/-- `fsr->cancel()`; the callback finds that the timer is not active -/
def cancel (s : World σ) : World σ :=
  if s.self.fsr ∈ s.busy then
    { s with
      busy := if s.cancels.headD true = true then s.busy.erase s.self.fsr else s.busy
      cancels := s.cancels.tail }
  else s

def stop [Inhabited σ] (s : World σ) : World σ :=
  if s.self.active = false then s
  else
    let s := { s with self := { s.self with active := false, prev := default }, last := none }
    let s := s.cancel
    { s with self := { s.self with fetched := false } }

/-- Nothing if it throws, for a poll that is active. -/
def start (s : World σ) : Option (World σ) :=
  if s.self.active = true then none
  else
    let s := { s with self := { s.self with active := true } }
    let s :=
      if s.self.fsr ∈ s.busy then { s with self := { s.self with fsr := s.lastfsr + 1 }, lastfsr := s.lastfsr + 1 }
      else s
    some s.doStat

def react [Inhabited σ] (s : World σ) : Act → World σ
  | .nothing => s
  | .stop => s.stop
  | .restart => s.stop.start.getD s.stop

/-- A listener is called; what is left if it throws is the error. -/
def fire [Inhabited σ] (event : Fired σ) (s : World σ) : Except (World σ) (World σ) :=
  let reaction := s.reactions.headD {}
  let s := { s with
    reactions := s.reactions.tail
    reports := match s.reports with
      | report :: before => { report with fired := report.fired ++ [event] } :: before
      | [] => [] }
  if reaction.throws = true then .error (s.react reaction.act) else .ok (s.react reaction.act)

def notify [Inhabited σ] (prev cur : Option σ) (err : Option Err) (s : World σ) : Except (World σ) (World σ) :=
  s.fire (.poll prev cur err)

def initialNotify [Inhabited σ] (cur : Option σ) (err : Option Err) (s : World σ) : Except (World σ) (World σ) :=
  s.fire (.start cur err)

/-- Ghost: what has come back. -/
def receive (o : Outcome σ) (s : World σ) : World σ :=
  { s with last := some o, reports := ⟨s.last, o, []⟩ :: s.reports }

/-- The callback of the stat request, once it is known to be the one that is awaited. -/
def fetch [Inhabited σ] [DecidableEq σ] (o : Outcome σ) (s : World σ) : Except (World σ) (World σ) := do
  let prevOpt := if s.self.prevErr = none then some s.self.prev else none
  let s ←
    match o with
    | .failed err =>
      if some err ≠ s.self.prevErr then do
        let s := { s with self := { s.self with prevErr := some err } }
        let s ← if s.self.fetched = false then s.initialNotify none (some err) else pure s
        s.notify prevOpt none (some err)
      else pure s
    | .stat stat =>
      if s.self.fetched = false ∨ s.self.prev ≠ stat then do
        let s ← if s.self.fetched = true then s.notify prevOpt (some stat) none else s.initialNotify (some stat) none
        pure { s with self := { s.self with prev := stat } }
      else pure s
  pure { s with self := { s.self with fetched := true } }

/-- What is left, whether the listeners throw or not; the loop keeps the exception. -/
def after : Except (World σ) (World σ) → World σ
  | .ok s | .error s => s

/-- A request comes back. -/
def complete [Inhabited σ] [DecidableEq σ] (req : ℕ) (o : Outcome σ) (s : World σ) : World σ :=
  if req ∈ s.busy then
    let s := { s with busy := s.busy.erase req }
    if s.self.active = false ∨ s.self.fsr ≠ req then s else after ((s.receive o).fetch o)
  else s

/-- The callback of the timer. -/
def tick (s : World σ) : World σ := if s.self.active = true ∧ s.self.fsr ∉ s.busy then s.doStat else s

end World

/-! ### Runs -/

inductive Op (σ : Type) where
  | start
  | stop
  | tick
  /-- A request comes back; its listeners react. -/
  | complete (req : ℕ) (o : Outcome σ) (reactions : List Reaction)
  /-- What the backend will do with requests that are canceled. -/
  | script (cancels : List Bool)
deriving DecidableEq, Repr

variable [Inhabited σ] [DecidableEq σ]

def step (s : World σ) : Op σ → World σ
  | .start => s.start.getD s
  | .stop => s.stop
  | .tick => s.tick
  | .complete req o reactions => { s with reactions := reactions }.complete req o
  | .script cancels => { s with cancels := cancels }

def run (ops : List (Op σ)) (s : World σ) : World σ := ops.foldl step s

def initial : World σ := ⟨{ prev := default }, [], 0, [], [], none, []⟩

/-- What should be fired. -/
def expected (last : Option (Outcome σ)) (now : Outcome σ) : List (Fired σ) :=
  match last with
  | none => [.start now.stat? now.err?]
  | some before => if before = now then [] else [.poll before.stat? now.stat? now.err?]

end FsPoll

end UniEvent
