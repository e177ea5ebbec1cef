import UniEvent.Proofs.ResolverMoves

/-! # The place of a request

Outside of the resolver a request that is running is in the slot of its worker, in the queue or in
`cache_delayed`, and one that is not running is nowhere. In a clean run one thing can be wrong with this: an
answer takes a request from its worker without clearing the field `worker` of the request, which keeps its
value until a worker takes the request again.
-/

namespace UniEvent.Resolver

open Program Program.Exec

variable {s t : State} {req : Req} {m : State}

def OnWorker (s : State) (req : Req) : Prop :=
  ∃ w < s.size, (s.requests req).worker = some w ∧ ∀ w', (s.workers w').request = some req ↔ w' = w

def Waiting (s : State) (req : Req) : Prop :=
  s.queue.count req = 1 ∧ (s.requests req).queued = true ∧ (s.requests req).worker = none

def Postponed (s : State) (req : Req) : Prop :=
  s.cacheDelayed.count req = 1 ∧ (s.requests req).worker = none ∧
    (s.requests req).delayed ≠ 0 ∧ ∃ d, ((s.requests req).delayed, d) ∈ s.delays

/-- The request is in exactly one place, and its fields say so. -/
def InPlace (s : State) (req : Req) : Prop :=
  (OnWorker s req ∧ req ∉ s.queue ∧ req ∉ s.cacheDelayed) ∨
  (Waiting s req ∧ (∀ w, (s.workers w).request ≠ some req) ∧ req ∉ s.cacheDelayed) ∨
  (Postponed s req ∧ (∀ w, (s.workers w).request ≠ some req) ∧ req ∉ s.queue)

structure Placement (s : State) : Prop where
  running : ∀ req, (s.requests req).running = true ↔ InPlace s req
  resting : ∀ req, (s.requests req).running = false →
    (∀ w, (s.workers w).request ≠ some req) ∧ req ∉ s.queue ∧ req ∉ s.cacheDelayed ∧
      (s.requests req).worker = none ∧ (s.requests req).delayed = 0 ∧ (s.requests req).queued = false

/-- An answer has taken the request from its worker, and no worker has taken it since. -/
def handedOver (req : Req) : List Event → Bool
  | [] => false
  | .moved r _ :: before => if r = req then true else handedOver req before
  | .start r _ :: before | .assign r _ _ :: before => if r = req then false else handedOver req before
  | _ :: before => handedOver req before

/-- The field `worker` of a request that is not running is left over from an answer. -/
structure Stale (s : State) : Prop where
  resting : ∀ req, (s.requests req).running = false → ((s.requests req).worker = none ↔ handedOver req s.trace = false)
  running : ∀ req, (s.requests req).running = true → handedOver req s.trace = false

/-! ### The state -/

theorem PlacedBut.inPlace (placed : Placed s) (bounded : Bounded s) (running : (s.requests req).running = true) :
    InPlace s req := by
  have noSlot (worker : (s.requests req).worker = none) (w : ℕ) : (s.workers w).request ≠ some req := by
    intro slot
    simp [(placed.slot w req slot).2] at worker
  rcases (placed.held req running).resolve_left nofun with ⟨w, slot⟩ | waiting | postponed
  · have worker := (placed.slot w req slot).2
    refine .inl ⟨⟨w, bounded.slot w req slot, worker, fun w' => ⟨fun slot' => ?_, fun same => same ▸ slot⟩⟩,
      fun waiting => ?_, fun postponed => ?_⟩
    · exact Option.some.inj ((placed.slot w' req slot').2.symm.trans worker)
    · simp [(placed.waiting req waiting).2.2.1] at worker
    · simp [(placed.postponed req postponed).2.2.1] at worker
  · obtain ⟨_, queued, worker, _⟩ := placed.waiting req waiting
    refine .inr (.inl ⟨⟨List.count_eq_one_of_mem placed.queueNodup waiting, queued, worker⟩, noSlot worker, ?_⟩)
    intro postponed
    simp [(placed.postponed req postponed).2.1] at queued
  · obtain ⟨_, queued, worker, delayed⟩ := placed.postponed req postponed
    obtain ⟨d, member, _⟩ := placed.pending req delayed
    refine .inr (.inr ⟨⟨List.count_eq_one_of_mem placed.cachedNodup postponed, worker, delayed, d, member⟩,
      noSlot worker, fun waiting => ?_⟩)
    simp [(placed.waiting req waiting).2.1] at queued

theorem PlacedBut.running_of_inPlace (placed : Placed s) (place : InPlace s req) : (s.requests req).running = true := by
  rcases place with ⟨⟨w, _, _, slot⟩, _⟩ | ⟨⟨once, _⟩, _⟩ | ⟨⟨once, _⟩, _⟩
  · exact (placed.slot w req ((slot w).mpr rfl)).1
  · exact (placed.waiting req (List.count_pos_iff.mp (by omega))).1
  · exact (placed.postponed req (List.count_pos_iff.mp (by omega))).1

private theorem placement_iff (placed : Placed s) (bounded : Bounded s) (stale : Stale s) :
    Placement s ↔ ∀ req, handedOver req s.trace = false := by
  constructor
  · intro placement req
    cases running : (s.requests req).running with
    | true => exact stale.running req running
    | false =>
      obtain ⟨_, _, _, worker, _⟩ := placement.resting req running
      exact (stale.resting req running).mp worker
  · intro fresh
    refine ⟨fun req => ⟨fun running => placed.inPlace bounded running, placed.running_of_inPlace⟩,
      fun req resting => ?_⟩
    obtain ⟨noSlot, notQueued, notCached⟩ := placed.elsewhere resting
    obtain ⟨delayed, queued⟩ := placed.resting req resting
    exact ⟨noSlot, notQueued, notCached, (stale.resting req resting).mpr (fresh req), delayed, queued⟩

/-! ### The moves -/

/-- Neither a hand-over nor a worker that takes a request. -/
theorem handedOver_adds {l l' : List Event} (adds : Adds Event.isEnding l l') (req : Req) :
    handedOver req l' = handedOver req l := by
  obtain ⟨events, rfl, all⟩ := adds
  induction events with
  | nil => rfl
  | cons e events ih =>
    have ending := all e List.mem_cons_self
    have rest := ih fun e member => all e (List.mem_cons_of_mem _ member)
    cases e with
    | store | callback => exact rest
    | _ => cases ending

theorem Stale.same (stale : Stale s) (running : ∀ r, (t.requests r).running = (s.requests r).running)
    (worker : ∀ r, (t.requests r).worker = (s.requests r).worker)
    (handed : ∀ r, handedOver r t.trace = handedOver r s.trace) : Stale t where
  resting r := by simpa only [running, worker, handed] using stale.resting r
  running r := by simpa only [running, handed] using stale.running r

section

variable (stale : Stale s) (others : ∀ r, r ≠ req → t.requests r = s.requests r)
  (handed : ∀ r, r ≠ req → handedOver r t.trace = handedOver r s.trace)

include stale others handed

/-- A request that runs, with nothing left over. -/
theorem Stale.enter (running : (t.requests req).running = true) (fresh : handedOver req t.trace = false) : Stale t := by
  refine ⟨fun r resting => ?_, fun r runs => ?_⟩
  · have other : r ≠ req := fun same => by simp [same, running] at resting
    rw [others r other] at resting ⊢
    rw [handed r other]
    exact stale.resting r resting
  · by_cases same : r = req
    · exact same ▸ fresh
    · rw [others r same] at runs
      rw [handed r same]
      exact stale.running r runs

theorem Stale.leave (resting : (t.requests req).running = false)
    (worker : (t.requests req).worker = none ↔ handedOver req t.trace = false) : Stale t := by
  refine ⟨fun r rests => ?_, fun r running => ?_⟩
  · by_cases same : r = req
    · exact same ▸ worker
    · rw [others r same] at rests ⊢
      rw [handed r same]
      exact stale.resting r rests
  · have other : r ≠ req := fun same => by simp [same, resting] at running
    rw [others r other] at running
    rw [handed r other]
    exact stale.running r running

end

theorem Stale.retired {res : Result} (stale : Stale s) (others : ∀ r, r ≠ req → m.requests r = s.requests r)
    (handed : ∀ r, r ≠ req → handedOver r m.trace = handedOver r s.trace) (retired : Retired req m (m.retire req res))
    (worker : ((m.requests req).worker.filter fun w => decide ((m.workers w).request = none)) = none ↔
      handedOver req m.trace = false) :
    Stale (m.retire req res) := by
  have same := handedOver_adds (retire_adds req res m)
  refine stale.leave (fun r other => (retired.others r other).trans (others r other))
    (fun r other => (same r).trans (handed r other)) retired.running ?_
  rw [retired.worker, same]
  exact worker

/-- A request that is taken from its worker keeps naming it. -/
theorem Stale.answered {w : ℕ} (stale : Stale s) (placed : Placed s) (slot : (s.workers w).request = some req)
    (res : Result) (others : ∀ r, r ≠ req → m.requests r = s.requests r)
    (self : ∃ delayed, m.requests req = { s.requests req with delayed })
    (slots : (m.workers w).request = (s.workers w).request)
    (handed : ∀ r, handedOver r m.trace = handedOver r s.trace) : Stale (m.answered w res) := by
  obtain ⟨running, worker⟩ := placed.slot w req slot
  obtain ⟨delayed, self⟩ := self
  have worker' : (m.requests req).worker = some w := by rw [self]; exact worker
  obtain ⟨moved, retired⟩ := answered_retired res (slots.trans slot) (by rw [self]; exact running) worker'
  rw [moved]
  refine stale.retired others (fun r other => ?_) retired ?_
  · simp only [State.move, State.log, handedOver, if_neg (Ne.symm other)]
    exact handed r
  · have named : ((m.move w req).requests req).worker = some w := worker'
    have empty : ((m.move w req).workers w).request = none := by simp [State.move, State.setWorker, State.log]
    have handed : handedOver req (m.move w req).trace = true := by simp [State.move, State.log, handedOver]
    simp [named, Option.filter, empty, handed]

private theorem launch_requests (w : ℕ) (req : Req) (reply : Reply) (s : State) :
    (∀ r, r ≠ req → (s.launch w req reply).requests r = s.requests r) ∧
      ((s.launch w req reply).requests req).running = (s.requests req).running := by
  cases reply with
  | pending =>
    refine ⟨fun r other => ?_, ?_⟩
    · simp [State.launch, State.occupy, State.setRequest, State.setWorker, other]
    · simp [State.launch, State.occupy, State.setRequest, State.setWorker]
  | sync res =>
    refine ⟨fun r other => ?_, ?_⟩
    · simp [State.launch, State.occupy, State.setRequest, State.setWorker, State.delay, State.log, other]
    · simp [State.launch, State.occupy, State.setRequest, State.setWorker, State.delay, State.log]

private theorem handedOver_launch (w : ℕ) (req : Req) (reply : Reply) (s : State) (r : Req) :
    handedOver r (s.launch w req reply).trace = handedOver r s.trace := by
  cases reply with
  | pending => rfl
  | sync res => rfl

/-- A worker takes the request. -/
theorem Stale.launch (stale : Stale s) (w : ℕ) (reply : Reply) (others : ∀ r, r ≠ req → m.requests r = s.requests r)
    (handed : ∀ r, r ≠ req → handedOver r m.trace = handedOver r s.trace) (running : (m.requests req).running = true)
    (fresh : handedOver req m.trace = false) : Stale (m.launch w req reply) := by
  obtain ⟨others', running'⟩ := launch_requests w req reply m
  exact stale.enter (fun r other => (others' r other).trans (others r other))
    (fun r other => (handedOver_launch w req reply m r).trans (handed r other)) (running'.trans running)
    ((handedOver_launch w req reply m req).trans fresh)

theorem Step.stale (step : Step s t) (clean : Clean t) (placed : Placed s) (stale : Stale s) : Stale t := by
  have others (req : Req) (query : Query) : ∀ r, r ≠ req → (s.submit req query).requests r = s.requests r :=
    fun r other => Function.update_of_ne other _ _
  have running (req : Req) (query : Query) : ((s.submit req query).requests req).running = true := by
    simp [State.submit, State.setRequest, State.log]
  cases step with
  | enter move =>
    cases move with
    | frame | expire => exact stale.same (fun _ => rfl) (fun _ => rfl) (fun _ => rfl)
    | postpone req query addr idle =>
      have worker : (s.requests req).worker = none := (submit_fields req query s).1.symm.trans clean.1
      have handed : ∀ r, handedOver r ((s.submit req query).postpone req addr).trace = handedOver r s.trace := by
        simp [State.postpone, State.delay, State.setRequest, State.submit, State.log, handedOver]
      refine stale.enter (fun r other => ?_) (fun r _ => handed r) ?_
        ((handed req).trans ((stale.resting req idle).mp worker))
      · exact (postpone_others req addr _ r other).trans (others req query r other)
      · simp [State.postpone, State.delay, State.setRequest, State.log, State.submit]
    | enqueue req query idle =>
      have worker : (s.requests req).worker = none := (submit_fields req query s).1.symm.trans clean.1
      have handed : ∀ r, handedOver r ((s.submit req query).enqueue req).trace = handedOver r s.trace := by
        simp [State.enqueue, State.setRequest, State.submit, State.log, handedOver]
      refine stale.enter (fun r other => ?_) (fun r _ => handed r) ?_
        ((handed req).trans ((stale.resting req idle).mp worker))
      · exact (Function.update_of_ne other _ _).trans (others req query r other)
      · simp [State.enqueue, State.setRequest, State.log, State.submit]
    | start req query w reply =>
      refine stale.launch w reply (others req query) (fun r other => ?_) (running req query) ?_
      · exact if_neg (Ne.symm other)
      · exact if_pos rfl
    | grow req query reply =>
      refine stale.launch s.size reply (others req query) (fun r other => ?_) (running req query) ?_
      · exact if_neg (Ne.symm other)
      · exact if_pos rfl
  | frame | lost => exact stale.same (fun _ => rfl) (fun _ => rfl) (fun _ => rfl)
  | left | visit | visited => exact stale.same (fun _ => rfl) (fun _ => rfl) (fun _ => rfl)
  | uncache req =>
    exact stale.same (setRequest_field Request.running rfl) (setRequest_field Request.worker rfl) (fun _ => rfl)
  | assign w req reply front =>
    refine stale.launch w reply (fun _ _ => rfl) (fun r other => ?_) ?_ ?_
    · exact if_neg (Ne.symm other)
    · exact (placed.waiting req (List.mem_of_head? front)).1
    · exact if_pos rfl
  | finish req res running =>
    refine stale.retired (fun _ _ => rfl) (fun _ _ => rfl) (placed.retired res running) ?_
    simp only [stale.running req running, iff_true]
    cases worker : (s.requests req).worker with
    | none => rfl
    | some w => simp [Option.filter, placed.slot_of_worker running worker]
  | answer w position key res =>
    cases slot : (s.workers w).request with
    | none =>
      rw [State.answered, take_slots, slot]
      exact stale.same (fun _ => rfl) (fun _ => rfl) (fun _ => rfl)
    | some req =>
      exact stale.answered placed slot res (fun _ _ => rfl) ⟨_, rfl⟩ (take_slots ..) (fun _ => rfl)
  | hit id req addr rest next =>
    obtain ⟨running, worker, _⟩ := placed.hit_owner next
    let m : State := s.takeDelay req rest
    have self : (m.requests req).worker = none := (setRequest_field (s := s) Request.worker (by rfl) req).trans worker
    obtain ⟨finished, retired⟩ := hit_retired (m := m) addr running worker rfl
    change Stale (m.finished req (.ok addr))
    rw [finished]
    refine stale.retired (fun r other => Function.update_of_ne other _ _) (fun _ _ => rfl) retired ?_
    rw [self]
    exact iff_of_true rfl (stale.running req running)
  | reply id w req res rest next slot =>
    exact stale.answered placed slot res (fun r other => Function.update_of_ne other _ _)
      ⟨0, Function.update_self ..⟩ rfl (fun _ => rfl)

/-! ### Runs -/

/-- In a clean run the requests are in place up to those that an answer took from their worker. -/
theorem run_placement_iff (cfg : Config) (ts : List Turn) (clean : Clean (run ts (initial cfg)).2) :
    Placement (run ts (initial cfg)).2 ↔ ∀ req, handedOver req (run ts (initial cfg)).2.trace = false := by
  let I (s : State) : Prop := Bounded s ∧ (Clean s → Placed s ∧ Stale s)
  have kept : ∀ s t, Step s t → I s → I t := by
    rintro s t step ⟨bounded, before⟩
    refine ⟨step.bounded bounded, fun clean => ?_⟩
    obtain ⟨placed, stale⟩ := before (clean.earlier step.older)
    exact ⟨step.placed clean bounded placed, step.stale clean placed stale⟩
  have start : I (initial cfg) :=
    ⟨initial_bounded cfg, fun _ => ⟨initial_placed cfg, fun _ _ => iff_of_true rfl rfl, fun _ _ => rfl⟩⟩
  obtain ⟨bounded, holds⟩ := run_invariant kept cfg start ts
  obtain ⟨placed, stale⟩ := holds clean
  exact placement_iff placed bounded stale

/-- A request is answered, submitted again and given to the worker again; another one waits. -/
def repeatedTurns : List Turn :=
  [⟨3, [], [], .op (.submit 0 ⟨['a'], [], 0, {}, false, 0⟩)⟩,
    ⟨3, [], [], .answer 0 0 (.ok ⟨1, 60⟩)⟩,
    ⟨3, [], [], .op (.submit 0 ⟨['a'], [], 0, {}, false, 0⟩)⟩,
    ⟨3, [], [], .op (.submit 1 ⟨['b'], [], 0, {}, false, 0⟩)⟩]

theorem repeatedTurns_placed :
    let s := (run repeatedTurns (initial { workers := 1 })).2
    Clean s ∧ InPlace s 0 ∧ InPlace s 1 ∧ Placement s := by
  have trace : (run repeatedTurns (initial { workers := 1 })).2.trace =
      [.queued 1 none, .submit 1, .start 0 0, .submit 0, .callback 0 ⟨['a'], [], {}⟩ (.ok ⟨1, 60⟩) (some 0), .moved 0 0,
        .answer ⟨['a'], [], {}⟩ (.ok ⟨1, 60⟩), .start 0 0, .submit 0] := by decide
  have placement : Placement (run repeatedTurns (initial { workers := 1 })).2 := by
    refine (run_placement_iff _ repeatedTurns (by decide)).mpr fun req => ?_
    rw [trace]
    by_cases same : 0 = req
    · simp [handedOver, same]
    · simp [handedOver, same]
  exact ⟨by decide, (placement.running 0).mp (by decide), (placement.running 1).mp (by decide), placement⟩

/-- One request, answered. -/
def answeredTurns : List Turn :=
  [⟨3, [], [], .op (.submit 0 ⟨['a'], [], 0, {}, true, 0⟩)⟩, ⟨3, [], [], .answer 0 0 (.ok ⟨1, 60⟩)⟩]

theorem answeredTurns_not_placed : ¬ Placement (run answeredTurns (initial {})).2 := by
  intro placement
  have worker := (placement.resting 0 (by decide)).2.2.2.1
  revert worker
  decide

end UniEvent.Resolver
