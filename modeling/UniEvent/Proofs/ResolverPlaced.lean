import Mathlib.Data.List.Nodup
import UniEvent.Proofs.ResolverSteps

/-! # Where a request is

A running request is in the slot of one worker, in `queue` or in `cache_delayed`, its own fields say where,
and a delayed callback belongs to exactly one of these. `PlacedBut` allows for one request that is being
moved. Two things can break this. `finish_resolve` believes the field `worker` of a request even when it
is left over from an earlier run of the object, and the loop that empties the queue hands a request to
a worker that may have taken another one in a callback. `Clean` runs do neither.
-/

namespace UniEvent.Resolver

open Program Program.Exec

/-- A request waits with `worker` null, and a worker takes a request from the queue only if it has none. -/
def CleanAt : Event → List Event → Prop
  | .cached _ worker, _ | .queued _ worker, _ => worker = none
  | .assign _ _ slot, _ => slot = none
  | _, _ => True

instance (e : Event) (before : List Event) : Decidable (CleanAt e before) := by
  apply Event.casesOn (motive := fun e => Decidable (CleanAt e before)) <;> intros <;> unfold CleanAt <;> infer_instance

abbrev Clean (s : State) : Prop := Along CleanAt s.trace

/-- The delayed callback will complete the request. -/
def Delay.For (s : State) (d : Delay) (req : Req) : Prop :=
  match d with
  | .cacheHit other _ => other = req ∧ req ∈ s.cacheDelayed
  | .answer w _ => (s.workers w).request = some req

/-- Every running request is where its fields say, except for one that is nowhere. -/
structure PlacedBut (loose : Option Req) (s : State) : Prop where
  slot : ∀ w r, (s.workers w).request = some r →
    (s.requests r).running = true ∧ (s.requests r).worker = some w
  waiting : ∀ r ∈ s.queue, (s.requests r).running = true ∧ (s.requests r).queued = true ∧
    (s.requests r).worker = none ∧ (s.requests r).delayed = 0
  postponed : ∀ r ∈ s.cacheDelayed, (s.requests r).running = true ∧ (s.requests r).queued = false ∧
    (s.requests r).worker = none ∧ (s.requests r).delayed ≠ 0
  queueNodup : s.queue.Nodup
  cachedNodup : s.cacheDelayed.Nodup
  held : ∀ r, (s.requests r).running = true →
    loose = some r ∨ (∃ w, (s.workers w).request = some r) ∨ r ∈ s.queue ∨ r ∈ s.cacheDelayed
  nowhere : ∀ r, loose = some r → (s.requests r).running = true ∧ (s.requests r).delayed = 0 ∧
    (∀ w, (s.workers w).request ≠ some r) ∧ r ∉ s.queue ∧ r ∉ s.cacheDelayed
  resting : ∀ r, (s.requests r).running = false → (s.requests r).delayed = 0 ∧ (s.requests r).queued = false
  owned : ∀ d ∈ s.delays, ∃ r, d.2.For s r ∧ (s.requests r).delayed = d.1
  pending : ∀ r, (s.requests r).delayed ≠ 0 → ∃ d, ((s.requests r).delayed, d) ∈ s.delays ∧ d.For s r
  ids : (s.delays.map Prod.fst).Nodup
  issued : ∀ d ∈ s.delays, 0 < d.1 ∧ d.1 ≤ s.lastid

abbrev Placed (s : State) : Prop := PlacedBut none s

variable {s t : State} {loose : Option Req} {req : Req} {rest : List (ℕ × Delay)} {w id : ℕ} {m : State}
  {d : Delay}

/-- What `PlacedBut` looks at. -/
structure SamePlaces (s t : State) : Prop where
  slots : ∀ w, (t.workers w).request = (s.workers w).request
  queue : t.queue = s.queue
  cacheDelayed : t.cacheDelayed = s.cacheDelayed
  running : ∀ r, (t.requests r).running = (s.requests r).running
  queued : ∀ r, (t.requests r).queued = (s.requests r).queued
  worker : ∀ r, (t.requests r).worker = (s.requests r).worker
  delayed : ∀ r, (t.requests r).delayed = (s.requests r).delayed
  delays : t.delays = s.delays
  lastid : t.lastid = s.lastid

theorem SamePlaces.of_eq (workers : t.workers = s.workers) (queue : t.queue = s.queue)
    (cacheDelayed : t.cacheDelayed = s.cacheDelayed) (requests : t.requests = s.requests)
    (delays : t.delays = s.delays) (lastid : t.lastid = s.lastid) : SamePlaces s t :=
  ⟨fun _ => by rw [workers], queue, cacheDelayed, fun _ => by rw [requests], fun _ => by rw [requests],
    fun _ => by rw [requests], fun _ => by rw [requests], delays, lastid⟩

theorem SamePlaces.for (same : SamePlaces s t) (d : Delay) (r : Req) : d.For t r ↔ d.For s r := by
  cases d with
  | cacheHit other addr => simp only [Delay.For, same.cacheDelayed]
  | answer w res => simp only [Delay.For, same.slots]

theorem PlacedBut.congr (placed : PlacedBut loose s) (same : SamePlaces s t) : PlacedBut loose t where
  slot w r := by simpa only [same.slots, same.running, same.worker] using placed.slot w r
  waiting r := by
    simpa only [same.queue, same.running, same.queued, same.worker, same.delayed] using placed.waiting r
  postponed r := by
    simpa only [same.cacheDelayed, same.running, same.queued, same.worker, same.delayed] using placed.postponed r
  queueNodup := by simpa only [same.queue] using placed.queueNodup
  cachedNodup := by simpa only [same.cacheDelayed] using placed.cachedNodup
  held r := by simpa only [same.running, same.slots, same.queue, same.cacheDelayed] using placed.held r
  nowhere r := by
    simpa only [same.running, same.delayed, same.slots, same.queue, same.cacheDelayed] using placed.nowhere r
  resting r := by simpa only [same.running, same.delayed, same.queued] using placed.resting r
  owned d := by simpa only [same.delays, same.for, same.delayed] using placed.owned d
  pending r := by simpa only [same.delays, same.for, same.delayed] using placed.pending r
  ids := by simpa only [same.delays] using placed.ids
  issued d := by simpa only [same.delays, same.lastid] using placed.issued d

/-! ### One request moves -/

theorem Delay.For.unique {r r' : Req} (first : d.For s r) (second : d.For s r') : r = r' := by
  cases d with
  | cacheHit other addr => exact first.1.symm.trans second.1
  | answer w res => exact Option.some.inj (first.symm.trans second)

theorem PlacedBut.delay_unique (placed : PlacedBut loose s) {d d' : Delay} (first : (id, d) ∈ s.delays)
    (second : (id, d') ∈ s.delays) : d = d' :=
  congrArg Prod.snd (List.inj_on_of_nodup_map placed.ids first second rfl)

/-- No two requests wait for the same delayed callback. -/
theorem PlacedBut.delayed_unique (placed : PlacedBut loose s) {r r' : Req} (some : (s.requests r).delayed ≠ 0)
    (same : (s.requests r').delayed = (s.requests r).delayed) : r' = r := by
  obtain ⟨d, member, owner⟩ := placed.pending r some
  obtain ⟨d', member', owner'⟩ := placed.pending r' (same ▸ some)
  rw [same] at member'
  obtain rfl := placed.delay_unique member member'
  exact owner'.unique owner

/-- What `PlacedBut` says of one request. -/
structure PlacedAt (loose : Option Req) (s : State) (r : Req) : Prop where
  slot : ∀ w, (s.workers w).request = some r → (s.requests r).running = true ∧ (s.requests r).worker = some w
  waiting : r ∈ s.queue → (s.requests r).running = true ∧ (s.requests r).queued = true ∧
    (s.requests r).worker = none ∧ (s.requests r).delayed = 0
  postponed : r ∈ s.cacheDelayed → (s.requests r).running = true ∧ (s.requests r).queued = false ∧
    (s.requests r).worker = none ∧ (s.requests r).delayed ≠ 0
  held : (s.requests r).running = true →
    loose = some r ∨ (∃ w, (s.workers w).request = some r) ∨ r ∈ s.queue ∨ r ∈ s.cacheDelayed
  nowhere : loose = some r → (s.requests r).running = true ∧ (s.requests r).delayed = 0 ∧
    (∀ w, (s.workers w).request ≠ some r) ∧ r ∉ s.queue ∧ r ∉ s.cacheDelayed
  resting : (s.requests r).running = false → (s.requests r).delayed = 0 ∧ (s.requests r).queued = false
  pending : (s.requests r).delayed ≠ 0 → ∃ d, ((s.requests r).delayed, d) ∈ s.delays ∧ d.For s r

/-- Every other request stays where it is, with its delayed callback. -/
structure Aside (req : Req) (s t : State) : Prop where
  others : ∀ r, r ≠ req → t.requests r = s.requests r
  slots : ∀ w r, r ≠ req → ((t.workers w).request = some r ↔ (s.workers w).request = some r)
  queue : ∀ r, r ≠ req → (r ∈ t.queue ↔ r ∈ s.queue)
  cacheDelayed : ∀ r, r ≠ req → (r ∈ t.cacheDelayed ↔ r ∈ s.cacheDelayed)
  kept : ∀ d ∈ s.delays, d.1 ≠ (s.requests req).delayed → d ∈ t.delays
  delays : ∀ d ∈ t.delays, d ∈ s.delays ∧ d.1 ≠ (s.requests req).delayed ∨
    d.2.For t req ∧ (t.requests req).delayed = d.1

theorem Aside.for_other {r : Req} (aside : Aside req s t) (owner : d.For s r) (other : r ≠ req) : d.For t r := by
  cases d with
  | cacheHit first addr => exact ⟨owner.1, (aside.cacheDelayed r other).mpr owner.2⟩
  | answer w res => exact (aside.slots w r other).mpr owner

theorem PlacedBut.aside {loose' : Option Req} (placed : PlacedBut loose s) (aside : Aside req s t)
    (self : PlacedAt loose' t req) (alone : ∀ r, r ≠ req → loose ≠ some r ∧ loose' ≠ some r)
    (queueNodup : t.queue.Nodup) (cachedNodup : t.cacheDelayed.Nodup) (ids : (t.delays.map Prod.fst).Nodup)
    (issued : ∀ d ∈ t.delays, 0 < d.1 ∧ d.1 ≤ t.lastid) : PlacedBut loose' t := by
  have all (r : Req) : PlacedAt loose' t r := by
    by_cases other : r = req
    · exact other ▸ self
    have request := aside.others r other
    have place : (∃ w, (s.workers w).request = some r) ∨ r ∈ s.queue ∨ r ∈ s.cacheDelayed →
        (∃ w, (t.workers w).request = some r) ∨ r ∈ t.queue ∨ r ∈ t.cacheDelayed :=
      .imp (.imp fun w => (aside.slots w r other).mpr)
        (.imp (aside.queue r other).mpr (aside.cacheDelayed r other).mpr)
    constructor <;> rw [request]
    · exact fun w slot => placed.slot w r ((aside.slots w r other).mp slot)
    · exact fun member => placed.waiting r ((aside.queue r other).mp member)
    · exact fun member => placed.postponed r ((aside.cacheDelayed r other).mp member)
    · exact fun running => .inr (place ((placed.held r running).resolve_left (alone r other).1))
    · exact fun loose => absurd loose (alone r other).2
    · exact placed.resting r
    · intro some
      obtain ⟨d, member, owner⟩ := placed.pending r some
      have apart : (s.requests r).delayed ≠ (s.requests req).delayed := fun same =>
        other (placed.delayed_unique some same.symm).symm
      exact ⟨d, aside.kept _ member apart, aside.for_other owner other⟩
  refine ⟨fun w r => (all r).slot w, fun r => (all r).waiting, fun r => (all r).postponed, queueNodup, cachedNodup,
    fun r => (all r).held, fun r => (all r).nowhere, fun r => (all r).resting, fun d member => ?_,
    fun r => (all r).pending, ids, issued⟩
  rcases aside.delays d member with ⟨old, apart⟩ | own
  · obtain ⟨r, owner, id⟩ := placed.owned d old
    have other : r ≠ req := fun same => apart (by rw [← same, id])
    exact ⟨r, aside.for_other owner other, by rw [aside.others r other]; exact id⟩
  · exact ⟨req, own⟩

/-! ### Leaving -/

/-- The request has left its place, with its delayed callback. -/
structure Leaves (req : Req) (s t : State) : Prop where
  cfg : t.cfg = s.cfg
  size : t.size = s.size
  others : ∀ r, r ≠ req → t.requests r = s.requests r
  self : (t.requests req).running = false ∧ (t.requests req).queued = false ∧ (t.requests req).delayed = 0
  slots : ∀ w, (t.workers w).request = if (s.workers w).request = some req then none else (s.workers w).request
  queue : t.queue = s.queue.erase req
  cacheDelayed : t.cacheDelayed = s.cacheDelayed.erase req
  delays : t.delays = s.delays.filter fun d => decide (d.1 ≠ (s.requests req).delayed)
  lastid : t.lastid = s.lastid

section Leaves
variable (leaves : Leaves req s t) {r : Req}
include leaves

theorem Leaves.slot (slot : (t.workers w).request = some r) : (s.workers w).request = some r ∧ r ≠ req := by
  rw [leaves.slots] at slot
  split at slot
  · cases slot
  · rename_i other
    exact ⟨slot, fun same => other (same ▸ slot)⟩

theorem Leaves.slot_other (slot : (s.workers w).request = some r) (other : r ≠ req) :
    (t.workers w).request = some r := by
  rw [leaves.slots, if_neg (by rw [slot]; exact fun same => other (Option.some.inj same)), slot]

end Leaves

theorem PlacedBut.leave (placed : Placed s) (leaves : Leaves req s t) : Placed t := by
  have aside : Aside req s t := by
    refine ⟨leaves.others, fun w r other => ⟨fun slot => (leaves.slot slot).1, (leaves.slot_other · other)⟩,
      fun r other => ?_, fun r other => ?_, fun d member apart => ?_, fun d member => .inl ?_⟩
    · rw [leaves.queue, List.mem_erase_of_ne other]
    · rw [leaves.cacheDelayed, List.mem_erase_of_ne other]
    · rw [leaves.delays, List.mem_filter]
      exact ⟨member, decide_eq_true apart⟩
    · rw [leaves.delays, List.mem_filter] at member
      exact member.imp_right of_decide_eq_true
  have idle : (t.requests req).running ≠ true := by simp [leaves.self.1]
  refine placed.aside aside ⟨?_, ?_, ?_, (absurd · idle), nofun, fun _ => ⟨leaves.self.2.2, leaves.self.2.1⟩,
    (absurd leaves.self.2.2 ·)⟩ (fun _ _ => ⟨nofun, nofun⟩) ?_ ?_ ?_ ?_
  · exact fun w slot => absurd rfl (leaves.slot slot).2
  · rw [leaves.queue, placed.queueNodup.mem_erase_iff]
    exact fun member => absurd rfl member.1
  · rw [leaves.cacheDelayed, placed.cachedNodup.mem_erase_iff]
    exact fun member => absurd rfl member.1
  · exact leaves.queue ▸ placed.queueNodup.erase req
  · exact leaves.cacheDelayed ▸ placed.cachedNodup.erase req
  · exact leaves.delays ▸ placed.ids.sublist (List.filter_sublist.map _)
  · intro d member
    rw [leaves.delays, List.mem_filter] at member
    rw [leaves.lastid]
    exact placed.issued d member.1

/-! ### Completion -/

/-- What `store` changes. -/
theorem store_eq (req : Req) (res : Result) (s : State) : ∃ cache trace, s.store req res = { s with cache, trace } := by
  have emplaced (key : CacheKey) (addr : AddrInfo) (s : State) :
      ∃ cache trace, s.emplace key addr = { s with cache, trace } := by
    simp only [State.emplace]
    split
    · exact ⟨_, _, rfl⟩
    · exact ⟨_, _, rfl⟩
  cases res with
  | failed err => exact ⟨_, _, rfl⟩
  | ok addr =>
    simp only [State.store]
    split
    · split
      · exact emplaced _ _ _
      · exact emplaced _ _ _
    · exact ⟨_, _, rfl⟩

/-- `release`, when the worker that the request names has that request or none. -/
structure Released (req : Req) (s t : State) : Prop where
  cfg : t.cfg = s.cfg
  size : t.size = s.size
  others : ∀ r, r ≠ req → t.requests r = s.requests r
  delayed : (t.requests req).delayed = 0
  /-- A worker without a request does not clear `worker` of the one it had. -/
  worker : (t.requests req).worker = (s.requests req).worker.filter fun w => decide ((s.workers w).request = none)
  slots : ∀ w, (t.workers w).request = if (s.requests req).worker = some w then none else (s.workers w).request
  queue : t.queue = if (s.requests req).worker = none ∧ (s.requests req).queued = true then s.queue.erase req
    else s.queue
  cacheDelayed : t.cacheDelayed =
    if (s.requests req).worker = none ∧ (s.requests req).queued = false then s.cacheDelayed.erase req
      else s.cacheDelayed
  delays : t.delays = s.delays.filter fun d => decide (d.1 ≠ (s.requests req).delayed)
  lastid : t.lastid = s.lastid

private theorem release_released (req : Req)
    (own : ∀ w, (s.requests req).worker = some w → ∀ r, (s.workers w).request = some r → r = req) :
    Released req s (State.release req (s.disarm req)) := by
  let m : State := s.disarm req
  have others : ∀ r, r ≠ req → m.requests r = s.requests r := fun r other => Function.update_of_ne other _ _
  have self : m.requests req = { s.requests req with delayed := 0 } := Function.update_self ..
  have delayed : (m.requests req).delayed = 0 := congrArg Request.delayed self
  change Released req s (m.release req)
  cases worker : (s.requests req).worker with
  | none =>
    cases queued : (s.requests req).queued with
    | true =>
      have released : m.release req = { m with queue := m.queue.erase req } := by
        simp [State.release, self, worker, queued]
      rw [released]
      refine ⟨rfl, rfl, others, delayed, by simp [self, worker], ?_, ?_, ?_, rfl, rfl⟩ <;>
        simp [worker, queued, m, State.dropDelay, State.setRequest]
    | false =>
      have released : m.release req = { m with cacheDelayed := m.cacheDelayed.erase req } := by
        simp [State.release, self, worker, queued]
      rw [released]
      refine ⟨rfl, rfl, others, delayed, by simp [self, worker], ?_, ?_, ?_, rfl, rfl⟩ <;>
        simp [worker, queued, m, State.dropDelay, State.setRequest]
  | some w =>
    have released : m.release req = m.cancelWorker w := by simp [State.release, self, worker]
    rw [released]
    cases slot : (s.workers w).request with
    | none =>
      have same : m.cancelWorker w = m := by
        rw [State.cancelWorker, show (m.workers w).request = none from slot]
      rw [same]
      refine ⟨rfl, rfl, others, delayed, by simp [self, worker, slot, Option.filter], fun w' => ?_,
        by simp [worker]; rfl,
        by simp [worker]; rfl, rfl, rfl⟩
      by_cases eq : w = w'
      · simpa [worker, ← eq] using show (m.workers w).request = none from slot
      · simp [worker, eq, m, State.dropDelay, State.setRequest]
    | some r =>
      obtain rfl := own w worker r slot
      have same : m.cancelWorker w = (m.setRequest r { m.requests r with worker := none }).setWorker w {} := by
        rw [State.cancelWorker, show (m.workers w).request = some r from slot]
      rw [same]
      refine ⟨rfl, rfl, fun x other => ?_, ?_, ?_, fun w' => ?_, by simp [worker]; rfl, by simp [worker]; rfl, rfl, rfl⟩
      · exact (Function.update_of_ne other _ _).trans (others x other)
      · simp [State.setWorker, State.setRequest, delayed]
      · simp [State.setWorker, State.setRequest, worker, slot, Option.filter]
      · by_cases eq : w = w'
        · simp [worker, ← eq, State.setWorker]
        · simp [worker, eq, Function.update_of_ne (Ne.symm eq), m, State.dropDelay, State.setRequest, State.setWorker]

/-- `retire`, in the same case. -/
structure Retired (req : Req) (s t : State) : Prop extends Released req s t where
  running : (t.requests req).running = false
  queued : (t.requests req).queued = false

theorem retire_retired (req : Req) (res : Result)
    (own : ∀ w, (s.requests req).worker = some w → ∀ r, (s.workers w).request = some r → r = req) :
    Retired req s (s.retire req res) := by
  have released := release_released req own
  obtain ⟨cache, trace, same⟩ := store_eq req res
    (State.release req (s.disarm req))
  simp only [State.retire, same]
  refine ⟨{ released with others := fun r other => ?_, delayed := ?_, worker := ?_ }, ?_, ?_⟩
  · exact (Function.update_of_ne other _ _).trans (released.others r other)
  · simpa [State.setRequest, State.log] using released.delayed
  · simpa [State.setRequest, State.log] using released.worker
  · simp [State.setRequest, State.log]
  · simp [State.setRequest, State.log]

/-- A running request is in the slot of the worker that it names. -/
theorem PlacedBut.slot_of_worker (placed : Placed s) (running : (s.requests req).running = true)
    (worker : (s.requests req).worker = some w) : (s.workers w).request = some req := by
  rcases (placed.held req running).resolve_left nofun with ⟨w', slot⟩ | waiting | postponed
  · rw [(placed.slot w' req slot).2] at worker
    exact Option.some.inj worker ▸ slot
  · simp [(placed.waiting req waiting).2.2.1] at worker
  · simp [(placed.postponed req postponed).2.2.1] at worker

/-- A request that is retired, perhaps after its worker or its delayed callback let it go, has left. -/
theorem Retired.leaves (placed : Placed s) (running : (s.requests req).running = true) (retired : Retired req m t)
    (cfg : m.cfg = s.cfg) (size : m.size = s.size) (others : ∀ r, r ≠ req → m.requests r = s.requests r)
    (worker : (m.requests req).worker = (s.requests req).worker)
    (queued : (m.requests req).queued = (s.requests req).queued)
    (slots : ∀ w, (s.requests req).worker ≠ some w → (m.workers w).request = (s.workers w).request)
    (queue : m.queue = s.queue) (cacheDelayed : m.cacheDelayed = s.cacheDelayed)
    (delays : (m.delays.filter fun d => decide (d.1 ≠ (m.requests req).delayed)) =
      s.delays.filter fun d => decide (d.1 ≠ (s.requests req).delayed))
    (lastid : m.lastid = s.lastid) : Leaves req s t where
  cfg := retired.cfg.trans cfg
  size := retired.size.trans size
  others r other := (retired.others r other).trans (others r other)
  self := ⟨retired.running, retired.queued, retired.delayed⟩
  slots w := by
    rw [retired.slots, worker]
    by_cases names : (s.requests req).worker = some w
    · rw [if_pos names, if_pos (placed.slot_of_worker running names)]
    · rw [if_neg names, if_neg fun slot => names (placed.slot w req slot).2, slots w names]
  queue := by
    rw [retired.queue, worker, queued, queue]
    split
    · rfl
    · rename_i elsewhere
      have absent : req ∉ s.queue := fun member =>
        elsewhere ⟨(placed.waiting req member).2.2.1, (placed.waiting req member).2.1⟩
      exact (List.erase_of_not_mem absent).symm
  cacheDelayed := by
    rw [retired.cacheDelayed, worker, queued, cacheDelayed]
    split
    · rfl
    · rename_i elsewhere
      have absent : req ∉ s.cacheDelayed := fun member =>
        elsewhere ⟨(placed.postponed req member).2.2.1, (placed.postponed req member).2.1⟩
      exact (List.erase_of_not_mem absent).symm
  delays := retired.delays.trans delays
  lastid := retired.lastid.trans lastid

theorem PlacedBut.retired (placed : Placed s) (res : Result) (running : (s.requests req).running = true) :
    Retired req s (s.retire req res) :=
  retire_retired req res fun _ worker _ slot =>
    Option.some.inj (slot.symm.trans (placed.slot_of_worker running worker))

theorem retire_leaves (placed : Placed s) (res : Result) (running : (s.requests req).running = true) :
    Leaves req s (s.retire req res) :=
  (placed.retired res running).leaves placed running rfl rfl (fun _ _ => rfl) rfl rfl (fun _ _ => rfl) rfl rfl rfl rfl

/-- A worker hands over its request. -/
theorem answered_retired (res : Result) (slot : (s.workers w).request = some req)
    (running : (s.requests req).running = true) (worker : (s.requests req).worker = some w) :
    s.answered w res = (s.move w req).retire req res ∧ Retired req (s.move w req) ((s.move w req).retire req res) := by
  have empty : ((s.move w req).workers w).request = none := by simp [State.move, State.setWorker, State.log]
  refine ⟨?_, retire_retired req res fun w' names r slot' => ?_⟩
  · rw [State.answered, slot]
    exact if_pos running
  · obtain rfl : w' = w := Option.some.inj (names.symm.trans worker)
    rw [empty] at slot'
    cases slot'

/-- A worker hands over its request, perhaps after the delayed callback was taken. -/
theorem answered_leaves (placed : Placed s) (res : Result) (slot : (s.workers w).request = some req)
    (cfg : m.cfg = s.cfg) (size : m.size = s.size) (others : ∀ r, r ≠ req → m.requests r = s.requests r)
    (self : ∃ delayed, m.requests req = { s.requests req with delayed })
    (slots : ∀ w, (m.workers w).request = (s.workers w).request) (queue : m.queue = s.queue)
    (cacheDelayed : m.cacheDelayed = s.cacheDelayed)
    (delays : (m.delays.filter fun d => decide (d.1 ≠ (m.requests req).delayed)) =
      s.delays.filter fun d => decide (d.1 ≠ (s.requests req).delayed))
    (lastid : m.lastid = s.lastid) : Leaves req s (m.answered w res) := by
  obtain ⟨running, worker⟩ := placed.slot w req slot
  obtain ⟨delayed, self⟩ := self
  have worker' : (m.requests req).worker = some w := by rw [self]; exact worker
  have queued : (m.requests req).queued = (s.requests req).queued := by rw [self]
  obtain ⟨moved, retired⟩ := answered_retired res ((slots w).trans slot) (by rw [self]; exact running) worker'
  rw [moved]
  refine retired.leaves placed running cfg size others (worker'.trans worker.symm) queued
    (fun w' other => ?_) queue cacheDelayed delays lastid
  have different : w' ≠ w := fun same => other (same ▸ worker)
  exact (congrArg Worker.request (Function.update_of_ne different _ _)).trans (slots w')

/-- Taking the oldest delayed callback removes it. -/
theorem PlacedBut.popped (placed : PlacedBut loose s) (next : s.delays = (id, d) :: rest) :
    (rest.filter fun d => decide (d.1 ≠ 0)) = s.delays.filter fun d => decide (d.1 ≠ id) := by
  have ids := placed.ids
  rw [next, List.map_cons, List.nodup_cons] at ids
  have kept : (rest.filter fun d => decide (d.1 ≠ 0)) = rest := by
    refine List.filter_eq_self.mpr fun d member => decide_eq_true ?_
    exact Nat.ne_of_gt (placed.issued d (next ▸ List.mem_cons_of_mem _ member)).1
  have others : (rest.filter fun d => decide (d.1 ≠ id)) = rest := by
    refine List.filter_eq_self.mpr fun d member => decide_eq_true fun same => ids.1 ?_
    exact List.mem_map.mpr ⟨d, member, same⟩
  rw [kept, next, List.filter_cons_of_neg (by simp), others]

/-- The owner of the delayed callback of a cache hit. -/
theorem PlacedBut.hit_owner (placed : Placed s) {addr : AddrInfo} (next : s.delays = (id, .cacheHit req addr) :: rest) :
    (s.requests req).running = true ∧
      (s.requests req).worker = none ∧ (s.requests req).delayed = id := by
  obtain ⟨r, ⟨rfl, member⟩, delayed⟩ := placed.owned _ (next ▸ List.mem_cons_self ..)
  obtain ⟨running, _, worker, _⟩ := placed.postponed req member
  exact ⟨running, worker, delayed⟩

theorem hit_retired (addr : AddrInfo) (running : (s.requests req).running = true)
    (worker : (s.requests req).worker = none) (popped : m = (s.takeDelay req rest)) :
    m.finished req (.ok addr) = m.retire req (.ok addr) ∧ Retired req m (m.retire req (.ok addr)) := by
  have self : m.requests req = { s.requests req with delayed := 0 } := by
    rw [popped]
    exact Function.update_self ..
  refine ⟨if_pos (by rw [self]; exact running), retire_retired req _ fun w names => ?_⟩
  rw [self] at names
  simp [worker] at names

/-- The delayed callback of a request that the cache answers. -/
theorem hit_leaves (placed : Placed s) {addr : AddrInfo} (next : s.delays = (id, .cacheHit req addr) :: rest) :
    Leaves req s (State.finished req (.ok addr)
      (s.takeDelay req rest)) := by
  obtain ⟨running, worker, delayed⟩ := placed.hit_owner next
  let m : State := s.takeDelay req rest
  have self : m.requests req = { s.requests req with delayed := 0 } := Function.update_self ..
  obtain ⟨finished, retired⟩ := hit_retired (m := m) addr running worker rfl
  change Leaves req s (m.finished req (.ok addr))
  rw [finished]
  refine retired.leaves placed running rfl rfl (fun r other => Function.update_of_ne other _ _)
    (by rw [self]) (by rw [self]) (fun _ _ => rfl) rfl rfl ?_ rfl
  rw [self, delayed]
  exact placed.popped next

/-- The delayed callback of a worker that was answered at once. -/
theorem reply_leaves (placed : Placed s) {id w : ℕ} {res : Result} (next : s.delays = (id, .answer w res) :: rest)
    (slot : (s.workers w).request = some req) : Leaves req s (State.answered w res
      (s.takeDelay req rest)) := by
  obtain ⟨r, owner, delayed⟩ := placed.owned _ (next ▸ List.mem_cons_self ..)
  obtain rfl : r = req := Option.some.inj (owner.symm.trans slot)
  have self : Function.update s.requests r { s.requests r with delayed := 0 } r = { s.requests r with delayed := 0 } :=
    Function.update_self ..
  refine answered_leaves placed res slot rfl rfl (fun x other => Function.update_of_ne other _ _) ⟨0, self⟩
    (fun _ => rfl) rfl rfl ?_ rfl
  change (rest.filter fun d => decide (d.1 ≠ (Function.update s.requests r _ r).delayed)) = _
  rw [self, delayed]
  exact placed.popped next

end UniEvent.Resolver
