import UniEvent.Model.Queue

/-! # The resolver

`Resolver` hands requests to a limited number of workers, each with a c-ares channel of its own. A request
whose answer is cached waits in `cache_delayed` for a delayed callback, and one for which there is no
worker waits in `queue`. The functions below follow `Resolver.cc`; the branch for Windows is left out.

Workers are numbered from 0 up to `size`, requests are named by their object identity, and a channel is the
list of its outstanding queries. An address list is never empty. c-ares, time and the user's callbacks
are the environment, and scripted: `replies` says how `ares_getaddrinfo` answers next, `script` what the
user does next. The trace is ghost, newest event first.
-/

namespace UniEvent.Resolver

open Program Program.Exec

abbrev Name := List Char

structure AddrInfoHints where
  family : Int := 0
  socktype : Int := 0
  protocol : Int := 0
  flags : Int := 0
deriving DecidableEq, Repr

structure CacheKey where
  node : Name
  service : Name := []
  hints : AddrInfoHints := {}
deriving DecidableEq, Repr

/-- A list of addresses, and the time to live of the first. -/
structure AddrInfo where
  addrs : ℕ
  ttl : ℕ
deriving DecidableEq, Repr

/-- The address list and the error code of a completion. -/
inductive Result where
  | ok (addr : AddrInfo)
  | failed (err : Err)
deriving DecidableEq, Repr

structure CachedAddress where
  address : AddrInfo
  updateTime : ℕ
deriving DecidableEq, Repr

def CachedAddress.expired (cached : CachedAddress) (now expirationTime : ℕ) : Prop :=
  cached.updateTime + expirationTime < now

instance (cached : CachedAddress) (now expirationTime : ℕ) : Decidable (cached.expired now expirationTime) :=
  inferInstanceAs (Decidable (_ < _))

/-- `add_worker()` of the constructor asserts that there may be a worker. -/
structure Config where
  cacheExpirationTime : ℕ := 600
  cacheLimit : ℕ := 10000
  workers : ℕ := 5
  positive : 0 < workers := by decide

abbrev Req := ℕ

/-- What the user sets before `run()`. -/
structure Query where
  node : Name
  service : Name := []
  port : ℕ := 0
  hints : AddrInfoHints := {}
  useCache : Bool := true
  timeout : ℕ := 0
deriving DecidableEq, Repr

structure Request where
  node : Name := []
  service : Name := []
  hints : AddrInfoHints := {}
  useCache : Bool := true
  worker : Option ℕ := none
  /-- The id of the delayed callback, 0 for none. -/
  delayed : ℕ := 0
  running : Bool := false
  queued : Bool := false
deriving DecidableEq, Repr

def Request.key (r : Request) : CacheKey := ⟨r.node, r.service, r.hints⟩

structure Worker where
  request : Option Req := none
  /-- The queries of the channel that c-ares has not answered. -/
  queries : List CacheKey := []
deriving DecidableEq, Repr

/-- The callbacks given to `loop()->delay(..)`. -/
inductive Delay where
  /-- `req->delayed = 0; finish_resolve(req, ai, {});` -/
  | cacheHit (req : Req) (addr : AddrInfo)
  /-- `request->delayed = 0; finish_resolve(addr, err);` of a worker -/
  | answer (worker : ℕ) (res : Result)
deriving DecidableEq, Repr

inductive Event where
  | submit (req : Req)
  /-- `cache_delayed.push_back(req)`, with `req->worker` -/
  | cached (req : Req) (worker : Option ℕ)
  /-- `resolve` found a worker. -/
  | start (req : Req) (worker : ℕ)
  /-- `queue.push_back(req)`, with `req->worker` -/
  | queued (req : Req) (worker : Option ℕ)
  /-- A worker that has become free takes the front of `queue`; `slot` is its `request` at that moment. -/
  | assign (req : Req) (worker : ℕ) (slot : Option Req)
  /-- c-ares answers a query. -/
  | answer (key : CacheKey) (res : Result)
  /-- A worker hands over its request because of an answer. -/
  | moved (req : Req) (worker : ℕ)
  | store (key : CacheKey) (addr : AddrInfo)
  /-- `on_resolve` is called; `worker` is what `finish_resolve` found in the request. -/
  | callback (req : Req) (key : CacheKey) (res : Result) (worker : Option ℕ)
  /-- An exception leaves the loop that empties `queue`. -/
  | left (queue : List Req)
  /-- `reset` looks at a worker. -/
  | visit (worker : ℕ)
  /-- `reset` has looked at all workers. -/
  | visited
deriving DecidableEq, Repr

inductive Op where
  | submit (req : Req) (query : Query)
  | cancel (req : Req)
  | reset
deriving DecidableEq, Repr

inductive Act where
  | op (op : Op)
  | ret
  | throw
  | stop
deriving DecidableEq, Repr

/-- How `ares_getaddrinfo` answers: later, or inside the call. -/
inductive Reply where
  | pending
  | sync (res : Result)
deriving DecidableEq, Repr

structure State where
  cfg : Config
  size : ℕ
  workers : ℕ → Worker
  queue : List Req
  cacheDelayed : List Req
  cache : List (CacheKey × CachedAddress)
  requests : Req → Request
  /-- `Request::timer` is running. -/
  timers : Req → Bool
  /-- `Worker::exc` is set. -/
  excs : ℕ → Bool
  delays : List (ℕ × Delay)
  lastid : ℕ
  dnsRollTimer : Bool
  now : ℕ
  script : List Act
  replies : List Reply
  trace : List Event

/-- Recursion goes through the user's code and the requests that the cache serves when a worker is free. -/
structure Hooks where
  finishResolve : Req → Result → Exec State Unit
  user : Exec State Unit
  budget : ℕ

def Hooks.spent : Hooks where
  finishResolve _ _ := halt .exhausted
  user := halt .exhausted
  budget := 0

namespace State

def log (e : Event) (s : State) : State := { s with trace := e :: s.trace }

def setRequest (req : Req) (r : Request) (s : State) : State :=
  { s with requests := Function.update s.requests req r }

def setWorker (w : ℕ) (worker : Worker) (s : State) : State :=
  { s with workers := Function.update s.workers w worker }

/-- `req->delayed = loop()->delay(..);` -/
def delay (req : Req) (d : Delay) (s : State) : State :=
  { s.setRequest req { s.requests req with delayed := s.lastid + 1 } with
    delays := s.delays ++ [(s.lastid + 1, d)]
    lastid := s.lastid + 1 }

/-- `if (req->delayed) { loop()->cancel_delay(req->delayed); req->delayed = 0; }` -/
def dropDelay (req : Req) (s : State) : State :=
  { s.setRequest req { s.requests req with delayed := 0 } with
    delays := s.delays.filter fun d => decide (d.1 ≠ (s.requests req).delayed) }

/-- The same, and `req->timer.reset();` -/
abbrev disarm (req : Req) (s : State) : State := { s.dropDelay req with timers := Function.update s.timers req false }

/-- The loop takes the next delayed call, that of the request. -/
abbrev takeDelay (req : Req) (rest : List (ℕ × Delay)) (s : State) : State :=
  { s.setRequest req { s.requests req with delayed := 0 } with delays := rest }

/-- `queue.pop_front();` for a worker -/
abbrev dequeue (req : Req) (w : ℕ) (s : State) : State :=
  { s.log (.assign req w (s.workers w).request) with queue := s.queue.tail }

/-- `Worker::cancel`. `ares_cancel` reports every query to a worker that has no request, which does nothing. -/
def cancelWorker (w : ℕ) (s : State) : State :=
  match (s.workers w).request with
  | none => s
  | some req => (s.setRequest req { s.requests req with worker := none }).setWorker w {}

/-- The request leaves the worker or the list that it is in according to its own fields. -/
def release (req : Req) (s : State) : State :=
  match (s.requests req).worker with
  | some w => s.cancelWorker w
  | none =>
    if (s.requests req).queued = true then { s with queue := s.queue.erase req }
    else { s with cacheDelayed := s.cacheDelayed.erase req }

/-- `_cache.emplace(..)`, which keeps an entry that is there. -/
def emplace (key : CacheKey) (addr : AddrInfo) (s : State) : State :=
  match s.cache.lookup key with
  | some _ => s
  | none => { s.log (.store key addr) with cache := (key, ⟨addr, s.now⟩) :: s.cache }

def store (req : Req) (res : Result) (s : State) : State :=
  match res with
  | .failed _ => s
  | .ok addr =>
    if (s.requests req).useCache = true ∧ s.cfg.cacheLimit ≠ 0 then
      emplace (s.requests req).key addr (if s.cfg.cacheLimit ≤ s.cache.length then { s with cache := [] } else s)
    else s

/-- `Resolver::finish_resolve` up to the call of `on_resolve`, for a request that is running. -/
def retire (req : Req) (res : Result) (s : State) : State :=
  let worker := (s.requests req).worker
  let s := s.disarm req
  let s := (s.release req).store req res
  (s.setRequest req { s.requests req with queued := false, running := false }).log
    (.callback req (s.requests req).key res worker)

/-- `request = req; request->worker = this;` -/
def occupy (w : ℕ) (req : Req) (s : State) : State :=
  (s.setRequest req { s.requests req with worker := some w }).setWorker w { s.workers w with request := some req }

/-- The assignments with which `resolve` starts, after the user has set what to ask for. -/
def submit (req : Req) (query : Query) (s : State) : State :=
  (s.setRequest req { s.requests req with
    node := query.node
    service := if query.port = 0 then query.service else Nat.toDigits 10 query.port
    hints := query.hints
    useCache := query.useCache
    running := true }).log (.submit req)

/-- `req->_use_cache = false; cache_delayed.push_back(req); req->delayed = loop()->delay(..);` -/
def postpone (req : Req) (addr : AddrInfo) (s : State) : State :=
  let s := s.log (.cached req (s.requests req).worker)
  let s := s.setRequest req { s.requests req with useCache := false }
  { s with cacheDelayed := s.cacheDelayed ++ [req] }.delay req (.cacheHit req addr)

/-- `req->queued = true; queue.push_back(req);` -/
def enqueue (req : Req) (s : State) : State :=
  let s := s.log (.queued req (s.requests req).worker)
  { s.setRequest req { s.requests req with queued := true } with queue := s.queue ++ [req] }

/-- A worker without a request. -/
def idle? (s : State) : Option ℕ := (List.range s.size).find? fun w => decide ((s.workers w).request = none)

/-- `auto req = std::move(request);` -/
def move (w : ℕ) (req : Req) (s : State) : State :=
  (s.setWorker w { s.workers w with request := none }).log (.moved req w)

end State

def nextAct : Exec State Act := do
  let s ← get
  modify fun s => { s with script := s.script.tail }
  pure (s.script.headD .ret)

def nextReply : Exec State Reply := do
  let s ← get
  modify fun s => { s with replies := s.replies.tail }
  pure (s.replies.headD .pending)

/-- `Resolver::find` -/
def find (key : CacheKey) : Exec State (Option AddrInfo) := do
  let s ← get
  match s.cache.lookup key with
  | none => pure none
  | some cached =>
    if cached.expired s.now (min cached.address.ttl s.cfg.cacheExpirationTime) then do
      modify fun s => { s with cache := s.cache.filter fun entry => decide (entry.1 ≠ key) }
      pure none
    else pure (some cached.address)

/-! ### Workers -/

/-- `Worker::on_resolve`, where `finish` is `Worker::finish_resolve`. `ares_async` is false while c-ares is
asked and true otherwise. -/
def workerOnResolve (finish : Exec State Unit) (w : ℕ) (aresAsync : Bool) (res : Result) : Exec State Unit := do
  let s ← get
  match (s.workers w).request with
  | none => pure ()
  | some req =>
    if aresAsync = true then do
      let failed ← attempt finish
      when (failed = true) (modify fun s => { s with excs := Function.update s.excs w true })
    else modify (State.delay req (.answer w res))

/-- `ares_getaddrinfo`. Nothing is finished inside this call. -/
def aresGetaddrinfo (w : ℕ) (key : CacheKey) : Exec State Unit := do
  let reply ← nextReply
  match reply with
  | .pending => modify fun s => s.setWorker w { s.workers w with queries := (s.workers w).queries ++ [key] }
  | .sync res => do
    modify (State.log (.answer key res))
    workerOnResolve (pure ()) w false res

/-- `Worker::resolve` -/
def workerResolve (w : ℕ) (req : Req) : Exec State Unit := do
  modify (State.occupy w req)
  let s ← get
  aresGetaddrinfo w (s.requests req).key

/-! ### Requests -/

/-- `resolve` for a request that the cache does not answer. -/
def place (req : Req) : Exec State Unit := do
  let s ← get
  if s.queue = [] then
    match s.idle? with
    | some w => do
      modify fun s => { s.log (.start req w) with dnsRollTimer := true }
      workerResolve w req
    | none =>
      if s.size < s.cfg.workers then do
        modify fun s => { s.log (.start req s.size) with size := s.size + 1 }
        workerResolve s.size req
      else modify (State.enqueue req)
  else modify (State.enqueue req)

/-- `if (req->_timeout) req->timer = ..;` -/
def startTimer (req : Req) (timeout : ℕ) : Exec State Unit :=
  when (timeout ≠ 0) (modify fun s => { s with timers := Function.update s.timers req true })

def resolve (req : Req) (query : Query) : Exec State Unit := do
  modify (State.submit req query)
  let s ← get
  if (s.requests req).useCache = true ∧ s.cfg.cacheLimit ≠ 0 then do
    let found ← find (s.requests req).key
    match found with
    | some addr => modify (State.postpone req addr)
    | none => do
      startTimer req query.timeout
      place req
  else do
    startTimer req query.timeout
    place req

/-- `if (req->_use_cache) auto ai = find(..);` -/
def lookup (req : Req) : Exec State (Option AddrInfo) := do
  let s ← get
  if (s.requests req).useCache = true then find (s.requests req).key else pure none

/-- `req->_use_cache = false; finish_resolve(req, ai, {});` The note of the way out is ghost. -/
def serve (h : Hooks) (req : Req) (addr : AddrInfo) : Exec State Unit := do
  modify fun s => s.setRequest req { s.requests req with useCache := false }
  let failed ← attempt (h.finishResolve req (.ok addr))
  when (failed = true) (do
    modify fun s => s.log (.left s.queue)
    halt .thrown)

/-- `while (!queue.empty()) ..` -/
def drain (h : Hooks) (w : ℕ) : ℕ → Exec State Unit
  | 0 => halt .exhausted
  | budget + 1 => do
    let s ← get
    match s.queue with
    | [] => pure ()
    | req :: _ => do
      let found ← lookup req
      match found with
      | some addr => do
        serve h req addr
        drain h w budget
      | none => do
        modify (State.dequeue req w)
        workerResolve w req

/-- The guard of `finish_resolve`. -/
def afterResolve (h : Hooks) (worker : Option ℕ) : Exec State Unit := do
  let s ← get
  match worker with
  | none => pure ()
  | some w =>
    if (s.workers w).request ≠ none then pure ()
    else if s.queue = [] then
      when (∀ w ∈ List.range s.size, (s.workers w).request = none) (modify fun s => { s with dnsRollTimer := false })
    else drain h w h.budget

def finishResolve (h : Hooks) (req : Req) (res : Result) : Exec State Unit := do
  let s ← get
  if (s.requests req).running = true then do
    modify (State.retire req res)
    scopeGuard h.user (afterResolve h (s.requests req).worker)
  else pure ()

/-- `Worker::finish_resolve`. A worker without a request would dereference a null pointer. -/
def workerFinish (h : Hooks) (w : ℕ) (res : Result) : Exec State Unit := do
  let s ← get
  match (s.workers w).request with
  | none => halt .aborted
  | some req => do
    modify (State.move w req)
    finishResolve h req res

/-- `Request::cancel` -/
def cancel (h : Hooks) (req : Req) (err : Err) : Exec State Unit := finishResolve h req (.failed err)

/-! ### Reset -/

/-- `for (auto& w : workers) if (w->request) w->request->cancel();` from worker `w` on, with `n` to go. -/
def cancelWorkers (h : Hooks) (w : ℕ) : ℕ → Exec State Unit
  | 0 => modify (State.log .visited)
  | n + 1 => do
    modify (State.log (.visit w))
    let s ← get
    match (s.workers w).request with
    | some req => do
      cancel h req .canceled
      cancelWorkers h (w + 1) n
    | none => cancelWorkers h (w + 1) n

/-- `while (list.front() != last) list.front()->cancel(); last->cancel();` The front of an empty list is null. -/
def cancelUpTo (h : Hooks) (list : State → List Req) (last : Req) : ℕ → Exec State Unit
  | 0 => halt .exhausted
  | budget + 1 => do
    let s ← get
    match list s with
    | [] => halt .aborted
    | front :: _ =>
      if front = last then cancel h last .canceled
      else do
        cancel h front .canceled
        cancelUpTo h list last budget

/-- `if (last) ..` -/
def cancelList (h : Hooks) (list : State → List Req) : Option Req → Exec State Unit
  | none => pure ()
  | some last => cancelUpTo h list last h.budget

def reset (h : Hooks) : Exec State Unit := do
  modify fun s => { s with dnsRollTimer := false }
  let s ← get
  cancelWorkers h 0 s.size
  cancelList h State.cacheDelayed s.cacheDelayed.getLast?
  cancelList h State.queue s.queue.getLast?

/-! ### The user and the loop -/

/-- Only requests that are not running are submitted. -/
def runOp (h : Hooks) : Op → Exec State Unit
  | .submit req query => do
    let s ← get
    when ((s.requests req).running = false) (resolve req query)
  | .cancel req => cancel h req .canceled
  | .reset => reset h

def user (h : Hooks) : Exec State Unit := do
  let act ← nextAct
  match act with
  | .ret => pure ()
  | .throw => halt .thrown
  | .stop => halt .stopped
  | .op op => do
    runOp h op
    h.user

def members : ℕ → Hooks
  | 0 => .spent
  | n + 1 =>
    { finishResolve := finishResolve (members n)
      user := user (members n)
      budget := n }

inductive Task where
  | op (op : Op)
  /-- c-ares answers the query at a position of a worker's channel. -/
  | answer (worker position : ℕ) (res : Result)
  /-- The loop runs the oldest delayed callback. -/
  | fire
  /-- The timer of a request. -/
  | timer (req : Req)
  | sleep (time : ℕ)
deriving DecidableEq, Repr

/-- c-ares calls back with the answer to a query of the channel, and has forgotten the query. -/
def answer (h : Hooks) (w position : ℕ) (res : Result) : Exec State Unit := do
  let s ← get
  match (s.workers w).queries[position]? with
  | none => pure ()
  | some key => do
    modify fun s => (s.setWorker w { s.workers w with queries := (s.workers w).queries.eraseIdx position }).log
      (.answer key res)
    workerOnResolve (workerFinish h w res) w true res
    let s ← get
    when (s.excs w = true) (do
      modify fun s => { s with excs := Function.update s.excs w false }
      halt .thrown)

def fire (h : Hooks) : Exec State Unit := do
  let s ← get
  match s.delays with
  | [] => pure ()
  | (_, .cacheHit req addr) :: rest => do
    modify (State.takeDelay req rest)
    finishResolve h req (.ok addr)
  | (_, .answer w res) :: rest => do
    modify fun s => { s with delays := rest }
    match (s.workers w).request with
    | none => halt .aborted
    | some req => do
      modify fun s => s.setRequest req { s.requests req with delayed := 0 }
      workerFinish h w res

def perform (h : Hooks) : Task → Exec State Unit
  | .op op => runOp h op
  | .answer w position res => answer h w position res
  | .fire => fire h
  | .timer req => do
    let s ← get
    when (s.timers req = true) (do
      modify fun s => { s with timers := Function.update s.timers req false }
      cancel h req .timedOut)
  | .sleep time => modify fun s => { s with now := s.now + time }

structure Turn where
  depth : ℕ
  script : List Act := []
  replies : List Reply := []
  task : Task

def turn (t : Turn) : Exec State Unit := do
  modify fun s => { s with script := t.script, replies := t.replies }
  perform (members t.depth) t.task

def run : List Turn → Exec State Unit
  | [] => pure ()
  | t :: ts => do
    ignoring (turn t)
    run ts

/-- `Resolver::Resolver`, with the worker that it adds. -/
def initial (cfg : Config) : State where
  cfg
  size := 1
  workers _ := {}
  queue := []
  cacheDelayed := []
  cache := []
  requests _ := {}
  timers _ := false
  excs _ := false
  delays := []
  lastid := 0
  dnsRollTimer := false
  now := 0
  script := []
  replies := []
  trace := []

end UniEvent.Resolver
