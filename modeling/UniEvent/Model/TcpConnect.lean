import Mathlib.Data.List.AList
import UniEvent.Model.Resolver

/-! # Connecting by host

A connect by host asks the resolver of the loop for an address, and tells its cache when the address turns out to be
bad; after `Tcp.cc`, `Resolver.cc` and `AddrInfo.h`. All requests share the entries of the cache, and each has a copy of
the address that it got. How the resolver gets an answer that is not in the cache is the subject of `Model.Resolver`;
here an answer may arrive at any time. The type of the addresses is a parameter.
-/

namespace UniEvent.TcpConnect

open UniEvent.Resolver (Name AddrInfoHints CacheKey)

variable {α : Type}

/-- `ares_addrinfo_node` -/
structure Node (α : Type) where
  addr : α
  ttl : ℕ
deriving DecidableEq, Repr

/-- The nodes of an answer of c-ares. -/
abbrev Answer (α : Type) := { nodes : List (Node α) // nodes ≠ [] }

/-- All nodes of the answer, and those from the current one on; none for a null pointer. -/
structure AddrInfo (α : Type) where
  nodes : List (Node α)
  cur : List (Node α)
  within : cur <:+ nodes

namespace AddrInfo

def ofAnswer (answer : Answer α) : AddrInfo α := ⟨answer.1, answer.1, List.suffix_refl _⟩

/-- Nothing for a null pointer, which the source does not test for. -/
def addr (ai : AddrInfo α) : Option α := ai.cur.head?.map Node.addr

def ttl (ai : AddrInfo α) : ℕ := (ai.cur.head?.map Node.ttl).getD 0

def next (ai : AddrInfo α) : AddrInfo α := ⟨ai.nodes, ai.cur.tail, (List.tail_suffix _).trans ai.within⟩

def first (ai : AddrInfo α) : AddrInfo α := ⟨ai.nodes, ai.nodes, List.suffix_refl _⟩

end AddrInfo

/-- An entry of the cache. The serial number is ghost: it tells an entry from a later one with the same key. -/
structure CachedAddress (α : Type) where
  address : AddrInfo α
  updateTime : ℕ
  serial : ℕ

/-- The resolve request of a connect: with the workers or in the queue, or answered by the cache and delayed. -/
inductive Resolving (α : Type) where
  | asked
  | found (ai : AddrInfo α)

structure TcpConnectRequest (α : Type) where
  addr : Option α := none
  host : Name := []
  port : ℕ := 0
  cached : Bool := true
  hints : AddrInfoHints := {}
  resolveRequest : Option (Resolving α) := none

namespace TcpConnectRequest

/-- The key in `Resolver::resolve`: a port other than 0 replaces the service. -/
def key (r : TcpConnectRequest α) : CacheKey := ⟨r.host, if r.port = 0 then [] else Nat.toDigits 10 r.port, r.hints⟩

/-- The key in `TcpConnectRequest::handle_event`. -/
def badKey (r : TcpConnectRequest α) : CacheKey := ⟨r.host, Nat.toDigits 10 r.port, r.hints⟩

end TcpConnectRequest

/-- An error code with those it is nested in. -/
abbrev ErrorCode := List Err

/-- The cache of the resolver with its settings, the time, and the connect requests by their identity. -/
structure State (α : Type) where
  cacheLimit : ℕ
  cacheExpirationTime : ℕ
  cache : AList fun _ : CacheKey => CachedAddress α
  serial : ℕ
  now : ℕ
  connects : ℕ → TcpConnectRequest α

namespace State

/-- `Resolver::find` -/
def find (s : State α) (key : CacheKey) : Option (AddrInfo α) × State α :=
  match s.cache.lookup key with
  | none => (none, s)
  | some cached =>
    if cached.updateTime + min cached.address.ttl s.cacheExpirationTime < s.now then
      (none, { s with cache := s.cache.erase key })
    else (some cached.address, s)

/-- `_cache.emplace(..)`, which keeps an entry that is there. -/
def emplace (s : State α) (key : CacheKey) (answer : Answer α) : State α :=
  match s.cache.lookup key with
  | some _ => s
  | none =>
    { s with cache := s.cache.insert key ⟨.ofAnswer answer, s.now, s.serial⟩, serial := s.serial + 1 }

/-- The part of `Resolver::finish_resolve` that stores an answer. -/
def store (s : State α) (key : CacheKey) (answer : Answer α) : State α :=
  if s.cacheLimit = 0 then s
  else if s.cacheLimit ≤ s.cache.entries.length then { s with cache := ∅ }.emplace key answer
  else s.emplace key answer

/-- `Resolver::Cache::mark_bad_address` -/
def markBadAddress [DecidableEq α] (s : State α) (key : CacheKey) (sa : Option α) : State α :=
  match s.cache.lookup key with
  | none => s
  | some cached =>
    if cached.address.addr ≠ sa then s
    else
      let ai := if cached.address.next.cur ≠ [] then cached.address.next else cached.address.first
      { s with cache := s.cache.insert key { cached with address := ai } }

def setConnect (s : State α) (id : ℕ) (r : TcpConnectRequest α) : State α :=
  { s with connects := Function.update s.connects id r }

/-- The callback of the resolve request, when there is no error. -/
def onResolve (s : State α) (id : ℕ) (ai : AddrInfo α) : State α :=
  s.setConnect id { s.connects id with resolveRequest := none, addr := ai.addr }

/-- `TcpConnectRequest::finalize_connect`; a request that has an address goes to the backend. -/
def finalizeConnect (s : State α) (id : ℕ) : State α :=
  let r := s.connects id
  if r.addr.isSome then s
  else if r.cached = true ∧ s.cacheLimit ≠ 0 then
    match s.find r.key with
    | (some ai, s) => s.setConnect id { r with resolveRequest := some (.found ai) }
    | (none, s) => s.setConnect id { r with resolveRequest := some .asked }
  else s.setConnect id { r with resolveRequest := some .asked }

/-- A worker of the resolver has an answer for the request. -/
def answered (s : State α) (id : ℕ) (answer : Answer α) : State α :=
  let r := s.connects id
  match r.resolveRequest with
  | some .asked => (if r.cached then s.store r.key answer else s).onResolve id (.ofAnswer answer)
  | _ => s

/-- A worker is free, and the request that waits for it is looked up in the cache. -/
def unqueued (s : State α) (id : ℕ) : State α :=
  let r := s.connects id
  match r.resolveRequest with
  | some .asked =>
    if r.cached then
      match s.find r.key with
      | (some ai, s) => s.onResolve id ai
      | (none, s) => s
    else s
  | _ => s

/-- The delayed callback of a request that was found in the cache. -/
def fire (s : State α) (id : ℕ) : State α :=
  match (s.connects id).resolveRequest with
  | some (.found ai) => s.onResolve id ai
  | _ => s

/-- `TcpConnectRequest::handle_event` up to that of `ConnectRequest`. -/
def handleEvent [DecidableEq α] (s : State α) (id : ℕ) (err : ErrorCode) : State α :=
  let r := s.connects id
  let s := if err ≠ [] ∧ .canceled ∉ err ∧ r.host ≠ [] ∧ r.cached = true then s.markBadAddress r.badKey r.addr else s
  s.setConnect id { r with resolveRequest := none }

end State

/-- What happens, in any order. -/
inductive Move (α : Type) where
  /-- The user sets up a request object, new or not. -/
  | connectTo (id : ℕ) (addr : Option α) (host : Name) (port : ℕ) (hints : AddrInfoHints) (useCache : Bool)
  | exec (id : ℕ)
  | answered (id : ℕ) (answer : Answer α)
  | unqueued (id : ℕ)
  | fire (id : ℕ)
  | handleEvent (id : ℕ) (err : ErrorCode)
  /-- Other requests of the resolver look up a key and store an answer. -/
  | find (key : CacheKey)
  | store (key : CacheKey) (answer : Answer α)
  | sleep (time : ℕ)
  | setExpiration (time : ℕ)
  | setLimit (limit : ℕ)

namespace State

variable [DecidableEq α]

def step (s : State α) : Move α → State α
  | .connectTo id addr host port hints useCache => s.setConnect id ⟨addr, host, port, useCache, hints, none⟩
  | .exec id => s.finalizeConnect id
  | .answered id answer => s.answered id answer
  | .unqueued id => s.unqueued id
  | .fire id => s.fire id
  | .handleEvent id err => s.handleEvent id err
  | .find key => (s.find key).2
  | .store key answer => s.store key answer
  | .sleep time => { s with now := s.now + time }
  | .setExpiration time => { s with cacheExpirationTime := time }
  | .setLimit limit => { s with cacheLimit := limit, cache := if limit < s.cache.entries.length then ∅ else s.cache }

def run (s : State α) (moves : List (Move α)) : State α := moves.foldl step s

/-- A resolver with nothing in its cache. -/
def initial (cacheLimit cacheExpirationTime : ℕ) : State α := ⟨cacheLimit, cacheExpirationTime, ∅, 0, 0, fun _ => {}⟩

end State

end UniEvent.TcpConnect
