import UniEvent.Proofs.ResolverPlaced

/-! # Requests stay where they are said to be

A submission leaves the request loose, a worker, the queue or the cache takes it. In a clean run every move
keeps every request placed.
-/

namespace UniEvent.Resolver

open Program Program.Exec

variable {s t : State} {loose : Option Req} {req : Req} {w : ℕ}

/-! ### Entering -/

/-- A request that is not running is nowhere. -/
theorem PlacedBut.elsewhere (placed : Placed s) (idle : (s.requests req).running = false) :
    (∀ w, (s.workers w).request ≠ some req) ∧ req ∉ s.queue ∧ req ∉ s.cacheDelayed := by
  refine ⟨fun w slot => ?_, fun member => ?_, fun member => ?_⟩
  · simp [(placed.slot w req slot).1] at idle
  · simp [(placed.waiting req member).1] at idle
  · simp [(placed.postponed req member).1] at idle

/-- No delayed callback has the number that stands for none. -/
theorem PlacedBut.undelayed (placed : PlacedBut loose s) (delayed : (s.requests req).delayed = 0) {d : ℕ × Delay}
    (member : d ∈ s.delays) : d.1 ≠ (s.requests req).delayed := by
  rw [delayed]
  exact Nat.ne_of_gt (placed.issued d member).1

theorem submit_loose (placed : Placed s) (query : Query) (idle : (s.requests req).running = false) :
    PlacedBut (some req) (s.submit req query) := by
  obtain ⟨noSlot, notQueued, notCached⟩ := placed.elsewhere idle
  have rest := placed.resting req idle
  have self : ((s.submit req query).requests req).running = true ∧
      ((s.submit req query).requests req).delayed = 0 := by
    simp [State.submit, State.setRequest, State.log, rest.1]
  have aside : Aside req s (s.submit req query) :=
    ⟨fun r other => Function.update_of_ne other _ _, fun _ _ _ => Iff.rfl, fun _ _ => Iff.rfl, fun _ _ => Iff.rfl,
      fun _ member _ => member, fun d member => .inl ⟨member, placed.undelayed rest.1 member⟩⟩
  refine placed.aside aside ⟨fun w slot => absurd slot (noSlot w), (absurd · notQueued), (absurd · notCached),
    fun _ => .inl rfl, fun _ => ⟨self.1, self.2, noSlot, notQueued, notCached⟩, ?_, (absurd self.2 ·)⟩
    (fun r other => by simp [other.symm]) placed.queueNodup placed.cachedNodup
    placed.ids placed.issued
  simp [self.1]

/-- The front of the queue is taken off. -/
theorem pop_loose (placed : Placed s) (front : s.queue.head? = some req) (e : Event) :
    PlacedBut (some req) { s.log e with queue := s.queue.tail } := by
  obtain ⟨rest, queue⟩ := List.head?_eq_some_iff.mp front
  have nodup := placed.queueNodup
  rw [queue, List.nodup_cons] at nodup
  have member : req ∈ s.queue := by rw [queue]; exact List.mem_cons_self ..
  obtain ⟨running, queued, worker, delayed⟩ := placed.waiting req member
  refine { placed with
    waiting := fun r waits => placed.waiting r (List.mem_of_mem_tail waits),
    queueNodup := placed.queueNodup.tail, held := fun r runs => ?_, nowhere := ?_ }
  · change some req = some r ∨ (∃ w, (s.workers w).request = some r) ∨ r ∈ s.queue.tail ∨ r ∈ s.cacheDelayed
    rcases (placed.held r runs).resolve_left nofun with slot | waits | postponed
    · exact .inr (.inl slot)
    · rw [queue, List.mem_cons] at waits
      rw [queue]
      exact waits.imp (fun same => by rw [same]) fun later => .inr (.inl later)
    · exact .inr (.inr (.inr postponed))
  · rintro r ⟨⟩
    refine ⟨running, delayed, fun w slot => ?_, ?_, fun postponed => ?_⟩
    · simp [(placed.slot w req slot).2] at worker
    · change req ∉ s.queue.tail
      rw [queue]
      exact nodup.1
    · simp [(placed.postponed req postponed).2.1] at queued

private theorem occupy_placed (placed : PlacedBut (some req) s) (free : (s.workers w).request = none) :
    Placed (s.occupy w req) := by
  obtain ⟨running, delayed, noSlot, notQueued, notCached⟩ := placed.nowhere req rfl
  have self : (s.occupy w req).requests req = { s.requests req with worker := some w } := Function.update_self ..
  have slotSelf := occupy_request w req s
  have slots : ∀ w', w' ≠ w → ((s.occupy w req).workers w').request = (s.workers w').request :=
    fun w' other => congrArg Worker.request (Function.update_of_ne other _ _)
  have aside : Aside req s (s.occupy w req) := by
    refine ⟨fun r other => Function.update_of_ne other _ _, fun w' r other => ?_, fun _ _ => Iff.rfl,
      fun _ _ => Iff.rfl,
      fun _ member _ => member, fun d member => .inl ⟨member, placed.undelayed delayed member⟩⟩
    by_cases same : w' = w
    · rw [same, slotSelf, free]
      exact ⟨fun eq => absurd (Option.some.inj eq).symm other, nofun⟩
    · rw [slots w' same]
  refine placed.aside aside ⟨fun w' slot => ?_, (absurd · notQueued), (absurd · notCached),
    fun _ => .inr (.inl ⟨w, slotSelf⟩), (by simp), ?_, ?_⟩
      (fun r other => by simp [other.symm])
    placed.queueNodup placed.cachedNodup placed.ids placed.issued
  · by_cases same : w' = w
    · rw [self, same]
      exact ⟨running, rfl⟩
    · exact absurd (slots w' same ▸ slot) (noSlot w')
  · simp [self, running]
  · simp [self, delayed]

/-- The next id is new. -/
theorem PlacedBut.ids_append (placed : PlacedBut loose s) (d : Delay) :
    ((s.delays ++ [(s.lastid + 1, d)]).map Prod.fst).Nodup ∧
      ∀ e ∈ s.delays ++ [(s.lastid + 1, d)], 0 < e.1 ∧ e.1 ≤ s.lastid + 1 := by
  refine ⟨?_, fun e member => ?_⟩
  · rw [List.map_append, List.nodup_append]
    refine ⟨placed.ids, List.nodup_singleton _, fun id old new fresh same => ?_⟩
    obtain ⟨e, member, rfl⟩ := List.mem_map.mp old
    have bound := (placed.issued e member).2
    simp only [List.map_cons, List.map_nil, List.mem_singleton] at fresh
    omega
  · rcases List.mem_append.mp member with old | new
    · have := placed.issued e old
      omega
    · obtain rfl := List.mem_singleton.mp new
      exact ⟨Nat.succ_pos _, le_rfl⟩

/-- A request gets a delayed callback where it is. -/
theorem delay_placed {d : Delay} (placed : Placed s) (delayed : (s.requests req).delayed = 0)
    (running : (s.requests req).running = true) (notQueued : req ∉ s.queue) (notCached : req ∉ s.cacheDelayed)
    (owner : d.For s req) : Placed (s.delay req d) := by
  have self : (s.delay req d).requests req = { s.requests req with delayed := s.lastid + 1 } := Function.update_self ..
  have ids := placed.ids_append d
  have aside : Aside req s (s.delay req d) := by
    refine ⟨fun r other => Function.update_of_ne other _ _, fun _ _ _ => Iff.rfl, fun _ _ => Iff.rfl,
      fun _ _ => Iff.rfl,
      fun _ member _ => List.mem_append_left _ member, fun e member => ?_⟩
    rcases List.mem_append.mp member with old | new
    · exact .inl ⟨old, placed.undelayed delayed old⟩
    · obtain rfl := List.mem_singleton.mp new
      exact .inr ⟨owner, by rw [self]⟩
  refine placed.aside aside
    ⟨fun w slot => ?_, (absurd · notQueued), (absurd · notCached), fun _ => placed.held req running,
    (by simp), ?_, fun _ => ?_⟩ (by simp) placed.queueNodup placed.cachedNodup ids.1 ids.2
  · rw [self]
    exact placed.slot w req slot
  · simp [self, running]
  · rw [self]
    exact ⟨d, List.mem_append_right _ (List.mem_singleton_self _), owner⟩

theorem launch_placed (placed : PlacedBut (some req) s) (free : (s.workers w).request = none) (reply : Reply) :
    Placed (s.launch w req reply) := by
  have occupied := occupy_placed placed free
  have slot := occupy_request w req s
  obtain ⟨running, delayed, _, notQueued, notCached⟩ := placed.nowhere req rfl
  have self : (s.occupy w req).requests req = { s.requests req with worker := some w } := Function.update_self ..
  cases reply with
  | pending =>
    refine occupied.congr ⟨fun w' => ?_, rfl, rfl, fun _ => rfl, fun _ => rfl, fun _ => rfl, fun _ => rfl, rfl, rfl⟩
    by_cases same : w' = w
    · simp [same, State.launch, State.setWorker]
    · exact congrArg Worker.request (Function.update_of_ne same _ _)
  | sync res =>
    have logged : Placed ((s.occupy w req).log (.answer ((s.occupy w req).requests req).key res)) :=
      occupied.congr (.of_eq rfl rfl rfl rfl rfl rfl)
    exact delay_placed logged ((congrArg Request.delayed self).trans delayed)
      ((congrArg Request.running self).trans running) notQueued notCached slot

private theorem nodup_push {l : List Req} (nodup : l.Nodup) (new : req ∉ l) : (l ++ [req]).Nodup :=
  List.nodup_append.mpr ⟨nodup, List.nodup_singleton _, fun r old x last same => new (by simp_all)⟩

private theorem mem_push {l : List Req} {r : Req} (other : r ≠ req) : r ∈ l ++ [req] ↔ r ∈ l := by simp [other]

private theorem enqueue_placed (placed : PlacedBut (some req) s) (worker : (s.requests req).worker = none) :
    Placed (s.enqueue req) := by
  obtain ⟨running, delayed, noSlot, notQueued, notCached⟩ := placed.nowhere req rfl
  have self : (s.enqueue req).requests req = { s.requests req with queued := true } := Function.update_self ..
  have aside : Aside req s (s.enqueue req) :=
    ⟨fun r other => Function.update_of_ne other _ _, fun _ _ _ => Iff.rfl, fun _ other => mem_push other,
      fun _ _ => Iff.rfl, fun _ member _ => member, fun d member => .inl ⟨member, placed.undelayed delayed member⟩⟩
  refine placed.aside aside ⟨fun w slot => absurd slot (noSlot w), fun _ => ?_, (absurd · notCached),
    fun _ => .inr (.inr (.inl List.mem_concat_self)), (by simp), ?_, ?_⟩
    (fun r other => by simp [other.symm]) (nodup_push placed.queueNodup notQueued)
    placed.cachedNodup placed.ids placed.issued
  · rw [self]
    exact ⟨running, rfl, worker, delayed⟩
  · simp [self, running]
  · simp [self, delayed]

theorem postpone_others (req : Req) (addr : AddrInfo) (s : State) (r : Req) (other : r ≠ req) :
    (s.postpone req addr).requests r = s.requests r :=
  (Function.update_of_ne other _ _).trans (Function.update_of_ne other _ _)

private theorem postpone_placed (placed : PlacedBut (some req) s) (addr : AddrInfo)
    (worker : (s.requests req).worker = none) (unqueued : (s.requests req).queued = false) :
    Placed (s.postpone req addr) := by
  obtain ⟨running, delayed, noSlot, notQueued, notCached⟩ := placed.nowhere req rfl
  have self : (s.postpone req addr).requests req =
      { s.requests req with useCache := false, delayed := s.lastid + 1 } := by
    simp [State.postpone, State.delay, State.setRequest, State.log]
  have ids := placed.ids_append (.cacheHit req addr)
  have last : req ∈ s.cacheDelayed ++ [req] := List.mem_concat_self
  have aside : Aside req s (s.postpone req addr) := by
    refine ⟨postpone_others req addr s, fun _ _ _ => Iff.rfl, fun _ _ => Iff.rfl, fun _ other => mem_push other,
      fun _ member _ => List.mem_append_left _ member, fun e member => ?_⟩
    rcases List.mem_append.mp member with old | new
    · exact .inl ⟨old, placed.undelayed delayed old⟩
    · obtain rfl := List.mem_singleton.mp new
      exact .inr ⟨⟨rfl, last⟩, by rw [self]; rfl⟩
  refine placed.aside aside ⟨fun w slot => absurd slot (noSlot w), (absurd · notQueued), fun _ => ?_,
    fun _ => .inr (.inr (.inr last)), (by simp), ?_, fun _ => ?_⟩
    (fun r other => by simp [other.symm]) placed.queueNodup
    (nodup_push placed.cachedNodup notCached) ids.1 ids.2
  · rw [self]
    exact ⟨running, unqueued, worker, Nat.succ_ne_zero _⟩
  · simp [self, running]
  · rw [self]
    exact ⟨_, List.mem_append_right _ (List.mem_singleton_self _), rfl, last⟩

/-! ### Workers exist -/

theorem take_slots (w position : ℕ) (key : CacheKey) (res : Result) (s : State) (w' : ℕ) :
    ((s.take w position key res).workers w').request = (s.workers w').request := by
  by_cases self : w' = w
  · simp [self, State.take, State.setWorker, State.log]
  · simp [self, State.take, State.setWorker, State.log]

/-- Every worker that is named is one of the pool. -/
structure Bounded (s : State) : Prop where
  slot : ∀ w r, (s.workers w).request = some r → w < s.size
  worker : ∀ r w, (s.requests r).worker = some w → w < s.size
  freed : ∀ w, s.Freed w → w < s.size

/-- No worker is named that was not named before. -/
structure Fewer (s t : State) : Prop where
  size : s.size ≤ t.size
  slot : ∀ w r, (t.workers w).request = some r → ∃ r, (s.workers w).request = some r
  worker : ∀ r w, (t.requests r).worker = some w → (s.requests r).worker = some w
  freed : ∀ w, t.Freed w → s.Freed w ∨ ∃ r, (s.requests r).worker = some w
  older : s.trace <:+ t.trace

theorem Fewer.trans {m : State} (first : Fewer s m) (second : Fewer m t) : Fewer s t where
  size := first.size.trans second.size
  slot w r slot := by
    obtain ⟨r', slot'⟩ := second.slot w r slot
    exact first.slot w r' slot'
  worker r w worker := first.worker r w (second.worker r w worker)
  freed w freed := by
    rcases second.freed w freed with freed' | ⟨r, worker⟩
    · exact first.freed w freed'
    · exact .inr ⟨r, first.worker r w worker⟩
  older := first.older.trans second.older

theorem Bounded.fewer (bounded : Bounded s) (fewer : Fewer s t) : Bounded t where
  slot w r slot := by
    obtain ⟨r', slot'⟩ := fewer.slot w r slot
    exact (bounded.slot w r' slot').trans_le fewer.size
  worker r w worker := (bounded.worker r w (fewer.worker r w worker)).trans_le fewer.size
  freed w freed := by
    refine Nat.lt_of_lt_of_le ?_ fewer.size
    rcases fewer.freed w freed with freed' | ⟨r, worker⟩
    · exact bounded.freed w freed'
    · exact bounded.worker r w worker

def Event.isCallback : Event → Bool
  | .callback _ _ _ _ => true
  | _ => false

/-- Only the callbacks of the trace matter. -/
private theorem freed_of_quiet {e : Event} (trace : t.trace = e :: s.trace) (quiet : e.isCallback = false)
    (freed : t.Freed w) : s.Freed w := by
  obtain ⟨req, key, res, member⟩ := freed
  rw [trace, List.mem_cons] at member
  rcases member with rfl | old
  · cases quiet
  · exact ⟨req, key, res, old⟩

theorem Fewer.refl (s : State) : Fewer s s :=
  ⟨le_rfl, fun _ r slot => ⟨r, slot⟩, fun _ _ => id, fun _ => .inl, List.suffix_refl _⟩

section

variable (worker : ∀ r, (t.requests r).worker = (s.requests r).worker)
  (workers : ∀ w, (t.workers w).request = (s.workers w).request) (size : s.size ≤ t.size)

include worker workers size

private theorem Fewer.of_log {e : Event} (trace : t.trace = e :: s.trace) (quiet : e.isCallback = false) :
    Fewer s t where
  size := size
  slot w r slot := ⟨r, (workers w).symm.trans slot⟩
  worker r _ named := (worker r).symm.trans named
  freed _ freed := .inl (freed_of_quiet trace quiet freed)
  older := trace ▸ List.suffix_cons _ _

private theorem Fewer.of_eq (trace : t.trace = s.trace) : Fewer s t where
  size := size
  slot w r slot := ⟨r, (workers w).symm.trans slot⟩
  worker r _ named := (worker r).symm.trans named
  freed _ := by
    rw [State.Freed, trace]
    exact .inl
  older := trace ▸ List.suffix_refl _

end

/-- A field that the new value keeps. -/
theorem setRequest_field {α : Type} (f : Request → α) {request : Request} {s : State}
    (same : f request = f (s.requests req)) (r : Req) :
    f ((s.setRequest req request).requests r) = f (s.requests r) := by
  by_cases self : r = req
  · subst self
    simp [State.setRequest, same]
  · simp [State.setRequest, self]

private theorem cancelWorker_fewer (w : ℕ) (s : State) : Fewer s (s.cancelWorker w) := by
  rw [State.cancelWorker]
  split
  · exact .refl _
  · rename_i req slot
    refine ⟨le_rfl, fun w' r slot' => ?_, fun r w' worker => ?_, fun w freed => .inl freed, List.suffix_refl _⟩
    · by_cases self : w' = w
      · exact ⟨req, self ▸ slot⟩
      · exact ⟨r, by simpa [State.setWorker, State.setRequest, self] using slot'⟩
    · by_cases self : r = req
      · simp [State.setWorker, State.setRequest, self] at worker
      · simpa [State.setWorker, State.setRequest, self] using worker

private theorem release_fewer (req : Req) (s : State) : Fewer s (s.release req) := by
  rw [State.release]
  split
  · exact cancelWorker_fewer _ s
  · split
    · exact .of_eq (fun _ => rfl) (fun _ => rfl) le_rfl rfl
    · exact .of_eq (fun _ => rfl) (fun _ => rfl) le_rfl rfl

private theorem emplace_fewer (key : CacheKey) (addr : AddrInfo) (s : State) : Fewer s (s.emplace key addr) := by
  rw [State.emplace]
  split
  · exact .refl _
  · exact .of_log (fun _ => rfl) (fun _ => rfl) le_rfl rfl rfl

private theorem store_fewer (req : Req) (res : Result) (s : State) : Fewer s (s.store req res) := by
  cases res with
  | failed err => exact .refl _
  | ok addr =>
    simp only [State.store]
    split
    · split
      · have cleared : Fewer s { s with cache := [] } := .of_eq (fun _ => rfl) (fun _ => rfl) le_rfl rfl
        exact cleared.trans (emplace_fewer _ _ _)
      · exact emplace_fewer _ _ _
    · exact .refl _

theorem retire_fewer (req : Req) (res : Result) (s : State) : Fewer s (s.retire req res) := by
  let m : State := s.disarm req
  have dropped : Fewer s m := .of_eq (setRequest_field Request.worker rfl) (fun _ => rfl) le_rfl rfl
  have stored := (dropped.trans (release_fewer req m)).trans (store_fewer req res _)
  refine ⟨stored.size, stored.slot, fun r w worker => stored.worker r w ?_, fun w freed => ?_,
    stored.older.trans (List.suffix_cons _ _)⟩
  · rw [← worker]
    exact (setRequest_field Request.worker (by rfl) r).symm
  · obtain ⟨r, key, res', member⟩ := freed
    rcases List.mem_cons.mp member with new | old
    · injection new with _ _ _ named
      exact .inr ⟨req, named.symm⟩
    · exact stored.freed w ⟨r, key, res', old⟩

private theorem finished_fewer (req : Req) (res : Result) (s : State) : Fewer s (s.finished req res) := by
  rw [State.finished]
  split
  · exact retire_fewer req res s
  · exact .refl _

private theorem answered_fewer (w : ℕ) (res : Result) (s : State) : Fewer s (s.answered w res) := by
  rw [State.answered]
  split
  · exact .refl _
  · rename_i req slot
    have moved : Fewer s (s.move w req) := by
      refine ⟨le_rfl, fun w' r slot' => ?_, fun _ _ worker => worker, fun w' freed => .inl ?_, List.suffix_cons _ _⟩
      · by_cases self : w' = w
        · exact ⟨req, self ▸ slot⟩
        · exact ⟨r, by simpa [State.move, State.setWorker, State.log, self] using slot'⟩
      · exact freed_of_quiet (e := .moved req w) rfl rfl freed
    exact moved.trans (finished_fewer req res _)

private theorem occupy_bounded (bounded : Bounded s) (bound : w < s.size) (req : Req) : Bounded (s.occupy w req) where
  slot w' r slot := by
    by_cases self : w' = w
    · exact self ▸ bound
    · exact bounded.slot w' r (by simpa [State.occupy, State.setWorker, State.setRequest, self] using slot)
  worker r w' worker := by
    by_cases self : r = req
    · simp only [State.occupy, State.setWorker, State.setRequest, self, Function.update_self, Option.some.injEq]
        at worker
      exact worker ▸ bound
    · exact bounded.worker r w' (by simpa [State.occupy, State.setWorker, State.setRequest, self] using worker)
  freed w' freed := bounded.freed w' freed

private theorem launch_bounded (bounded : Bounded s) (bound : w < s.size) (req : Req) (reply : Reply) :
    Bounded (s.launch w req reply) := by
  have occupied := occupy_bounded bounded bound req
  cases reply with
  | pending =>
    refine occupied.fewer (.of_eq (fun _ => rfl) (fun w' => ?_) le_rfl rfl)
    by_cases self : w' = w
    · simp [self, State.launch, State.setWorker]
    · simp [self, State.launch, State.setWorker]
  | sync res =>
    exact occupied.fewer (.of_log (setRequest_field Request.worker rfl) (fun _ => rfl) le_rfl rfl rfl)

/-- A step names a new worker only when it gives a request to it. -/
theorem Step.fewer (step : Step s t) : Fewer s t ∨ ∃ m w req reply, t = m.launch w req reply ∧ Fewer s m ∧
    (w < m.size ∨ s.Freed w) ∧ (.submit req ∈ m.trace ∨ s.queue.head? = some req) := by
  have submitted (req : Req) (query : Query) : Fewer s (s.submit req query) :=
    .of_log (setRequest_field Request.worker rfl) (fun _ => rfl) le_rfl rfl rfl
  cases step with
  | enter move =>
    cases move with
    | frame | expire => exact .inl (.of_eq (fun _ => rfl) (fun _ => rfl) le_rfl rfl)
    | postpone req query addr =>
      refine .inl ((submitted req query).trans ?_)
      refine .of_log (fun r => ?_) (fun _ => rfl) le_rfl rfl rfl
      by_cases self : r = req
      · simp [self, State.postpone, State.delay, State.setRequest, State.log]
      · simp [self, State.postpone, State.delay, State.setRequest, State.log]
    | enqueue req query =>
      refine .inl ((submitted req query).trans ?_)
      exact .of_log (setRequest_field Request.worker rfl) (fun _ => rfl) le_rfl rfl rfl
    | start req query w reply _ _ bound =>
      have started : Fewer (s.submit req query) ((s.submit req query).log (.start req w)) :=
        .of_log (fun _ => rfl) (fun _ => rfl) le_rfl rfl rfl
      exact .inr ⟨_, w, req, reply, rfl, (submitted req query).trans started, .inl bound,
        .inl (List.mem_cons_of_mem _ List.mem_cons_self)⟩
    | grow req query reply =>
      have started : Fewer (s.submit req query)
          { (s.submit req query).log (.start req s.size) with size := s.size + 1 } :=
        .of_log (fun _ => rfl) (fun _ => rfl) (Nat.le_succ _) rfl rfl
      exact .inr ⟨_, s.size, req, reply, rfl, (submitted req query).trans started, .inl (Nat.lt_succ_self _),
        .inl (List.mem_cons_of_mem _ List.mem_cons_self)⟩
  | frame | lost => exact .inl (.of_eq (fun _ => rfl) (fun _ => rfl) le_rfl rfl)
  | left | visit | visited =>
    exact .inl (.of_log (fun _ => rfl) (fun _ => rfl) le_rfl rfl rfl)
  | uncache req => exact .inl (.of_eq (setRequest_field Request.worker rfl) (fun _ => rfl) le_rfl rfl)
  | finish req res => exact .inl (retire_fewer req res s)
  | assign w req reply front freed =>
    exact .inr ⟨_, w, req, reply, rfl, .of_log (fun _ => rfl) (fun _ => rfl) le_rfl rfl rfl,
      .inr freed, .inr front⟩
  | answer w position key res =>
    refine .inl (Fewer.trans ?_ (answered_fewer w res _))
    exact .of_log (fun _ => rfl) (take_slots w position key res s) le_rfl rfl rfl
  | hit id req addr rest =>
    refine .inl (Fewer.trans ?_ (finished_fewer req _ _))
    exact .of_eq (setRequest_field Request.worker rfl) (fun _ => rfl) le_rfl rfl
  | reply id w req res rest =>
    refine .inl (Fewer.trans ?_ (answered_fewer w res _))
    exact .of_eq (setRequest_field Request.worker rfl) (fun _ => rfl) le_rfl rfl

theorem Step.bounded (step : Step s t) (bounded : Bounded s) : Bounded t := by
  rcases step.fewer with fewer | ⟨m, w, req, reply, rfl, fewer, bound, _⟩
  · exact bounded.fewer fewer
  · refine launch_bounded (bounded.fewer fewer) ?_ req reply
    exact bound.elim (fun bound => bound) fun freed => (bounded.freed w freed).trans_le fewer.size

/-! ### Steps -/

theorem submit_fields (req : Req) (query : Query) (s : State) :
    ((s.submit req query).requests req).worker = (s.requests req).worker ∧
      ((s.submit req query).requests req).queued = (s.requests req).queued := by
  simp [State.submit, State.setRequest, State.log]

theorem Step.placed (step : Step s t) (clean : Clean t) (bounded : Bounded s) (placed : Placed s) : Placed t := by
  cases step with
  | enter move =>
    cases move with
    | frame | expire => exact placed.congr (.of_eq rfl rfl rfl rfl rfl rfl)
    | postpone req query addr idle _ =>
      have worker : ((s.submit req query).requests req).worker = none := clean.1
      refine postpone_placed (submit_loose placed query idle) addr worker ?_
      rw [(submit_fields req query s).2]
      exact (placed.resting req idle).2
    | start req query w reply idle _ bound free =>
      have started : PlacedBut (some req) ((s.submit req query).log (.start req w)) :=
        (submit_loose placed query idle).congr (.of_eq rfl rfl rfl rfl rfl rfl)
      exact launch_placed started free reply
    | grow req query reply idle _ _ _ =>
      have grown : PlacedBut (some req) { (s.submit req query).log (.start req s.size) with size := s.size + 1 } :=
        (submit_loose placed query idle).congr (.of_eq rfl rfl rfl rfl rfl rfl)
      refine launch_placed grown ?_ reply
      exact Option.eq_none_iff_forall_ne_some.mpr fun r slot => (bounded.slot _ r slot).false
    | enqueue req query idle _ =>
      exact enqueue_placed (submit_loose placed query idle) clean.1
  | frame | left | visit | visited => exact placed.congr (.of_eq rfl rfl rfl rfl rfl rfl)
  | uncache req =>
    have same : ∀ r, ∃ useCache, (s.setRequest req { s.requests req with useCache := false }).requests r =
        { s.requests r with useCache } := by
      intro r
      by_cases self : r = req
      · exact ⟨false, self ▸ Function.update_self ..⟩
      · exact ⟨_, Function.update_of_ne self _ _⟩
    refine placed.congr ⟨fun _ => rfl, rfl, rfl, fun r => ?_, fun r => ?_, fun r => ?_, fun r => ?_, rfl, rfl⟩ <;>
    · obtain ⟨useCache, eq⟩ := same r
      rw [eq]
  | finish req res running _ => exact placed.leave (retire_leaves placed res running)
  | assign w req reply front =>
    refine launch_placed (pop_loose placed front _) ?_ reply
    cases reply with
    | pending => exact clean.1
    | sync res => exact clean.2.1
  | answer w position key res _ =>
    have slots := take_slots w position key res s
    cases slot : (s.workers w).request with
    | none =>
      rw [State.answered, slots w, slot]
      exact placed.congr ⟨slots, rfl, rfl, fun _ => rfl, fun _ => rfl, fun _ => rfl, fun _ => rfl, rfl, rfl⟩
    | some req =>
      exact placed.leave (answered_leaves placed res slot rfl rfl (fun _ _ => rfl) ⟨_, rfl⟩ slots rfl rfl rfl rfl)
  | hit id req addr rest next => exact placed.leave (hit_leaves placed next)
  | reply id w req res rest next slot => exact placed.leave (reply_leaves placed next slot)
  | lost id w res rest next none =>
    obtain ⟨r, owner, _⟩ := placed.owned _ (next ▸ List.mem_cons_self ..)
    exact absurd owner (by simp [Delay.For, none])

/-! ### Runs -/

theorem initial_bounded (cfg : Config) : Bounded (initial cfg) where
  slot w r slot := by cases slot
  worker r w worker := by cases worker
  freed w freed := by
    obtain ⟨req, key, res, member⟩ := freed
    cases member

theorem run_bounded (cfg : Config) (ts : List Turn) : Bounded (run ts (initial cfg)).2 :=
  run_invariant (fun _ _ step bounded => step.bounded bounded) cfg (initial_bounded cfg) ts

theorem initial_placed (cfg : Config) : Placed (initial cfg) where
  slot w r slot := by cases slot
  waiting r member := by cases member
  postponed r member := by cases member
  queueNodup := List.nodup_nil
  cachedNodup := List.nodup_nil
  held r running := by cases running
  nowhere := nofun
  resting r _ := ⟨rfl, rfl⟩
  owned d member := by cases member
  pending r delayed := absurd rfl delayed
  ids := List.nodup_nil
  issued d member := by cases member

/-- In a clean run every request is where its fields say. -/
theorem run_placed (cfg : Config) (ts : List Turn) (clean : Clean (run ts (initial cfg)).2) :
    Placed (run ts (initial cfg)).2 := by
  let I (s : State) : Prop := Bounded s ∧ (Clean s → Placed s)
  have kept : ∀ s t, Step s t → I s → I t := fun s t step before =>
    ⟨step.bounded before.1, fun clean => step.placed clean before.1 (before.2 (clean.earlier step.older))⟩
  exact (run_invariant kept cfg ⟨initial_bounded cfg, fun _ => initial_placed cfg⟩ ts).2 clean

end UniEvent.Resolver
