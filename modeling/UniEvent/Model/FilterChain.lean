import Mathlib.Data.List.Nodup

/-! # Requests in a chain of filters

A write, a shutdown or a connect of a stream goes through the filters of the stream, from the first to the last, and its
completion comes back the other way; after `StreamFilter.cc`, `Stream.cc`, `Tcp.cc` and `Pipe.cc`. The way back starts
at `last_filter`, a member of the request that every hop sets. Here one request object is followed through all its
submissions; a filter that gets it passes it on at once or later, and passes on its completion. Filters are named by
their identity.
-/

namespace UniEvent.FilterChain

variable {ι : Type}

/-- `IntrusiveChain<StreamFilterSP>` -/
structure Chain (ι : Type) where
  filters : List ι
  nodup : filters.Nodup

inductive Kind where
  | write
  | shutdown
  | tcpConnect
  | pipeConnect
deriving DecidableEq, Repr

/-- Where a request is. -/
inductive Phase (ι : Type) where
  | idle
  /-- In the queue of the stream. -/
  | queued
  /-- Executed on a stream that is not connected; `cancel(not_connected)` is delayed. -/
  | refused
  /-- A filter has it. -/
  | held (filter : ι)
  | backend
deriving DecidableEq, Repr

/-- A call that a completion makes. -/
inductive Call (ι : Type) where
  /-- `handle_write`, `handle_shutdown` or `handle_connect` of a filter -/
  | handle (filter : ι)
  /-- `finalize_handle_write`, .. of the stream -/
  | finalize
deriving DecidableEq, Repr

/-- One submission: `last_filter` when it was made, whether it was handed to the chain, the filters that received it,
the last one first, and the calls that its completion made. -/
structure Report (ι : Type) where
  stale : Option ι
  reached : Bool
  received : List ι
  calls : List (Call ι)
deriving DecidableEq, Repr

/-- A request with the chain of its stream. What the submission has been through so far is ghost. -/
structure State (ι : Type) where
  kind : Kind
  chain : Chain ι
  lastFilter : Option ι
  phase : Phase ι
  stale : Option ι
  reached : Bool
  received : List ι
  reports : List (Report ι)

variable [DecidableEq ι]

/-- `next` of a filter -/
def next (filter : ι) : List ι → Option ι
  | first :: second :: rest => if first = filter then some second else next filter (second :: rest)
  | _ => none

/-- `prev` of a filter -/
def prev (filter : ι) : List ι → Option ι
  | first :: second :: rest => if second = filter then some first else prev filter (second :: rest)
  | _ => none

/-- The filters that `INVOKE(prev, ..)` goes through from a filter on, `n` at most. -/
def climb (filters : List ι) : ℕ → Option ι → List ι
  | n + 1, some filter => filter :: climb filters n (prev filter filters)
  | _, _ => []

namespace State

omit [DecidableEq ι] in
/-- `last_filter = handle->_filters.front();` and its `write(..)`, or the backend if there is none -/
def pass (s : State ι) : State ι :=
  match s.chain.filters with
  | first :: _ => { s with lastFilter := some first, phase := .held first, reached := true, received := [first] }
  | [] => { s with lastFilter := none, phase := .backend, reached := true }

/-- `exec` of a request that needs a connection -/
def execConnected (s : State ι) (outConnected : Bool) : State ι :=
  if outConnected then s.pass else { s with phase := .refused }

/-- `exec` of a connect, which leaves `last_filter` alone when there is no filter -/
def execConnect (s : State ι) : State ι :=
  if s.chain.filters = [] then { s with phase := .backend } else s.pass

def exec (s : State ι) (outConnected : Bool) : State ι :=
  match s.kind with
  | .write | .shutdown => s.execConnected outConnected
  | .tcpConnect | .pipeConnect => s.execConnect

/-- `StreamFilter::write`, `shutdown`, `tcp_connect` and `pipe_connect`, called by the filter itself -/
def forward (s : State ι) (filter : ι) : State ι :=
  match next filter s.chain.filters with
  | some second => { s with lastFilter := some second, phase := .held second, received := second :: s.received }
  | none => { s with phase := .backend }

/-- `handle_event` -/
def handleEvent (s : State ι) : List (Call ι) :=
  (climb s.chain.filters (s.chain.filters.length + 1) s.lastFilter).map .handle ++ [.finalize]

/-- The end of a submission. `last_filter` keeps its value. -/
def finish (s : State ι) : State ι :=
  { s with phase := .idle, reports := ⟨s.stale, s.reached, s.received, s.handleEvent⟩ :: s.reports }

end State

/-- What happens to a request. -/
inductive Move (ι : Type) where
  /-- Filters are added or removed, or the next submission is to another stream. -/
  | setFilters (chain : Chain ι)
  | submit
  | exec (outConnected : Bool)
  /-- The filter that has the request passes it on. -/
  | forward
  /-- The backend is done with it, or it is canceled wherever it is. -/
  | finish

namespace State

/-- One step, if it is possible: filters are changed only while the request is not in the chain. -/
def step (s : State ι) : Move ι → Option (State ι)
  | .setFilters chain =>
    match s.phase with
    | .idle | .queued | .refused => some { s with chain := chain }
    | _ => none
  | .submit =>
    match s.phase with
    | .idle => some { s with phase := .queued, stale := s.lastFilter, reached := false, received := [] }
    | _ => none
  | .exec outConnected =>
    match s.phase with
    | .queued => some (s.exec outConnected)
    | _ => none
  | .forward =>
    match s.phase with
    | .held filter => some (s.forward filter)
    | _ => none
  | .finish =>
    match s.phase with
    | .idle => none
    | _ => some s.finish

/-- A run of steps. -/
def run (s : State ι) (moves : List (Move ι)) : Option (State ι) := moves.foldlM step s

/-- A new request. -/
def fresh (kind : Kind) (chain : Chain ι) : State ι := ⟨kind, chain, none, .idle, none, false, [], []⟩

end State

end UniEvent.FilterChain
