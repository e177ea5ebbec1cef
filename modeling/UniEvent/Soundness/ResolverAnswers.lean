import UniEvent.Proofs.ResolverTrace

/-! # Answers reach the requests that asked for them

c-ares reports to a worker, so an answer finds its request as long as a channel has no query but that of
the worker's request. Request objects that are used once never carry a worker over from an earlier run;
what remains is that a worker takes a request from the queue only when it has none.
-/

namespace UniEvent.Resolver

open Program Program.Exec

variable {s t : State} {req : Req} {res : Result} {w : ℕ}

/-- The request object has not been submitted before. -/
def FreshAt : Event → List Event → Prop
  | .submit req, before => .submit req ∉ before
  | _, _ => True

instance (e : Event) (before : List Event) : Decidable (FreshAt e before) := by
  apply Event.casesOn (motive := fun e => Decidable (FreshAt e before)) <;> intros <;> unfold FreshAt <;> infer_instance

/-- A worker takes a request from the queue when it has none. -/
def IdleAt : Event → List Event → Prop
  | .assign _ _ slot, _ => slot = none
  | _, _ => True

instance (e : Event) (before : List Event) : Decidable (IdleAt e before) := by
  apply Event.casesOn (motive := fun e => Decidable (IdleAt e before)) <;> intros <;> unfold IdleAt <;> infer_instance

/-- An address list that a callback receives or the cache stores answers a query for that very key. -/
def MatchAt : Event → List Event → Prop
  | .callback _ key (.ok addr) _, before | .store key addr, before => .answer key (.ok addr) ∈ before
  | _, _ => True

instance : ∀ (e : Event) (before : List Event), Decidable (MatchAt e before)
  | .callback _ key (.ok addr) _, before | .store key addr, before =>
    inferInstanceAs (Decidable (.answer key (.ok addr) ∈ before))
  | .callback _ _ (.failed _) _, _ | .submit _, _ | .cached _ _, _ | .start _ _, _ | .queued _ _, _ | .assign _ _ _, _
  | .answer _ _, _ | .moved _ _, _ | .left _, _ | .visit _, _ | .visited, _ => .isTrue trivial

/-! ### Request objects that are used once -/

/-- A request object that was never submitted has never had a worker. -/
def Unused (s : State) : Prop := ∀ req, .submit req ∉ s.trace → (s.requests req).worker = none

theorem Unused.fewer (unused : Unused s) (fewer : Fewer s t) : Unused t := by
  intro req fresh
  have before := unused req fun member => fresh (fewer.older.subset member)
  cases worker : (t.requests req).worker with
  | none => rfl
  | some w =>
    rw [fewer.worker req w worker] at before
    cases before

theorem Unused.launch (unused : Unused s) (used : .submit req ∈ s.trace) (w : ℕ) (reply : Reply) :
    Unused (s.launch w req reply) := by
  intro r fresh
  have older := (launch_adds w req reply s).older.subset
  have other : r ≠ req := fun same => fresh (older (same ▸ used))
  have same : ((s.launch w req reply).requests r).worker = (s.requests r).worker := by
    cases reply with
    | pending => simp [State.launch, State.occupy, State.setRequest, State.setWorker, other]
    | sync res => simp [State.launch, State.occupy, State.setRequest, State.setWorker, State.delay, State.log, other]
  rw [same]
  exact unused r fun member => fresh (older member)

theorem Step.unused (step : Step s t) (placed : Placed s) (life : Outstanding s) (unused : Unused s) : Unused t := by
  rcases step.fewer with fewer | ⟨m, w, req, reply, rfl, fewer, _, used⟩
  · exact unused.fewer fewer
  · refine (unused.fewer fewer).launch ?_ w reply
    refine used.elim (fun member => member) fun front => fewer.older.subset (mem_of_outstanding ?_)
    rw [← life.running]
    exact (placed.waiting req (List.mem_of_head? front)).1

/-- An object that is submitted for the first time waits with `worker` null. -/
theorem Step.clean (step : Step s t) (fresh : Along FreshAt t.trace) (idle : Along IdleAt t.trace) (unused : Unused s)
    (clean : Clean s) : Clean t := by
  have outcome : ∀ e before, e.isOutcome = true → CleanAt e before := by
    intro e before outcome
    cases e with
    | cached | queued | assign => cases outcome
    | _ => trivial
  cases step with
  | enter move =>
    cases move with
    | frame | expire => exact clean
    | postpone req query addr =>
      exact ⟨(submit_fields req query s).1.trans (unused req fresh.2.1), trivial, clean⟩
    | enqueue req query =>
      exact ⟨(submit_fields req query s).1.trans (unused req fresh.2.1), trivial, clean⟩
    | start req query w reply => exact (launch_adds w req reply _).along ⟨trivial, trivial, clean⟩ outcome
    | grow req query reply => exact (launch_adds s.size req reply _).along ⟨trivial, trivial, clean⟩ outcome
  | frame | uncache | lost => exact clean
  | left | visit | visited => exact ⟨trivial, clean⟩
  | finish req res => exact (retire_adds req res s).outcomes.along clean outcome
  | assign w req reply =>
    refine (launch_adds w req reply _).along ⟨?_, clean⟩ outcome
    cases reply with
    | pending => exact idle.1
    | sync res => exact idle.2.1
  | answer w position key res => exact (answered_adds w res _).along ⟨trivial, clean⟩ outcome
  | hit id req addr rest => exact (finished_adds req _ _).outcomes.along clean outcome
  | reply id w req res rest => exact (answered_adds w res _).along clean outcome

/-! ### Channels -/

/-- Whatever can become an answer answers the right query. -/
structure Matched (s : State) : Prop where
  cache : ∀ entry ∈ s.cache, .answer entry.1 (.ok entry.2.address) ∈ s.trace
  hits : ∀ id req addr, (id, .cacheHit req addr) ∈ s.delays → .answer (s.requests req).key (.ok addr) ∈ s.trace
  replies : ∀ id w res, (id, .answer w res) ∈ s.delays → (s.workers w).queries = [] ∧
    ∀ req, (s.workers w).request = some req → .answer (s.requests req).key res ∈ s.trace
  channels : ∀ w, (s.workers w).queries = [] ∨
    ∃ req, (s.workers w).request = some req ∧ (s.workers w).queries = [(s.requests req).key]
  along : Along MatchAt s.trace

/-- Nothing new can become an answer. -/
structure Shrinks (s t : State) : Prop where
  key : ∀ req, (t.requests req).key = (s.requests req).key
  cache : t.cache ⊆ s.cache
  delays : t.delays ⊆ s.delays
  slots : ∀ w req, (t.workers w).request = some req → (s.workers w).request = some req
  queries : ∀ w, (t.workers w).queries = [] ∨ t.workers w = s.workers w
  trace : t.trace = s.trace

section

variable (matched : Matched s)

include matched

theorem Matched.shrinks (step : Shrinks s t) : Matched t := by
  refine ⟨fun entry member => ?_, fun id req addr member => ?_, fun id w res member => ?_, fun w => ?_,
    step.trace ▸ matched.along⟩
  · rw [step.trace]
    exact matched.cache entry (step.cache member)
  · rw [step.key, step.trace]
    exact matched.hits id req addr (step.delays member)
  · obtain ⟨empty, answered⟩ := matched.replies id w res (step.delays member)
    refine ⟨(step.queries w).elim (fun empty' => empty') fun same => same ▸ empty, fun req slot => ?_⟩
    rw [step.key, step.trace]
    exact answered req (step.slots w req slot)
  · rcases step.queries w with empty | same
    · exact .inl empty
    · simpa only [same, step.key] using matched.channels w

/-- The same workers, cache and delayed callbacks. -/
theorem Matched.same (key : ∀ req, (t.requests req).key = (s.requests req).key)
    (cache : t.cache = s.cache) (delays : t.delays = s.delays) (workers : t.workers = s.workers)
    (trace : t.trace = s.trace) : Matched t :=
  matched.shrinks ⟨key, cache ▸ List.Subset.refl _, delays ▸ List.Subset.refl _, fun _ _ slot => workers ▸ slot,
    fun w => .inr (congrFun workers w), trace⟩

theorem Matched.log {e : Event} (right : MatchAt e s.trace) : Matched (s.log e) where
  cache entry member := List.mem_cons_of_mem _ (matched.cache entry member)
  hits id req addr member := List.mem_cons_of_mem _ (matched.hits id req addr member)
  replies id w res member :=
    have before := matched.replies id w res member
    ⟨before.1, fun req slot => List.mem_cons_of_mem _ (before.2 req slot)⟩
  channels := matched.channels
  along := ⟨right, matched.along⟩

/-! ### Completion -/

theorem Matched.emplace {key : CacheKey} {addr : AddrInfo}
    (answered : .answer key (.ok addr) ∈ s.trace) : Matched (s.emplace key addr) := by
  rw [State.emplace]
  split
  · exact matched
  · have logged := matched.log (e := .store key addr) answered
    refine { logged with cache := fun entry member => ?_ }
    rcases List.mem_cons.mp member with new | old
    · rw [new]
      exact List.mem_cons_of_mem _ answered
    · exact logged.cache entry old

theorem Matched.store (answered : ∀ addr, res = .ok addr → .answer (s.requests req).key (.ok addr) ∈ s.trace) :
    Matched (s.store req res) := by
  cases res with
  | failed err => exact matched
  | ok addr =>
    simp only [State.store]
    split
    · split
      · have cleared : Matched { s with cache := [] } :=
          matched.shrinks ⟨fun _ => rfl, List.nil_subset _, List.Subset.refl _, fun _ _ slot => slot,
            fun _ => .inr rfl, rfl⟩
        exact cleared.emplace (answered addr rfl)
      · exact matched.emplace (answered addr rfl)
    · exact matched

end

private theorem cancelWorker_shrinks (w : ℕ) (s : State) : Shrinks s (s.cancelWorker w) := by
  rw [State.cancelWorker]
  split
  · exact ⟨fun _ => rfl, List.Subset.refl _, List.Subset.refl _, fun _ _ slot => slot, fun _ => .inr rfl, rfl⟩
  · rename_i req slot
    refine ⟨setRequest_field (s := s) Request.key (by rfl), List.Subset.refl _, List.Subset.refl _,
      fun w' r slot' => ?_, fun w' => ?_, rfl⟩
    · by_cases self : w' = w
      · simp [self, State.setWorker] at slot'
      · simpa [self, State.setWorker, State.setRequest] using slot'
    · by_cases self : w' = w
      · exact .inl (by simp [self, State.setWorker])
      · exact .inr (by simp [self, State.setWorker, State.setRequest])

private theorem release_shrinks (req : Req) (s : State) : Shrinks s (s.release req) := by
  rw [State.release]
  split
  · exact cancelWorker_shrinks _ s
  · split
    · exact ⟨fun _ => rfl, List.Subset.refl _, List.Subset.refl _, fun _ _ slot => slot, fun _ => .inr rfl, rfl⟩
    · exact ⟨fun _ => rfl, List.Subset.refl _, List.Subset.refl _, fun _ _ slot => slot, fun _ => .inr rfl, rfl⟩

private theorem store_requests (req : Req) (res : Result) (s : State) : (s.store req res).requests = s.requests := by
  obtain ⟨cache, trace, same⟩ := store_eq req res s
  rw [same]

section

variable (matched : Matched s)

include matched

section

variable (answered : ∀ addr, res = .ok addr → .answer (s.requests req).key (.ok addr) ∈ s.trace)

include answered

theorem Matched.retire : Matched (s.retire req res) := by
  let m : State := s.disarm req
  have key : (m.requests req).key = (s.requests req).key := setRequest_field (s := s) Request.key (by rfl) req
  have dropped : Matched m := matched.shrinks ⟨setRequest_field (s := s) Request.key (by rfl), List.Subset.refl _,
    List.filter_sublist.subset, fun _ _ slot => slot, fun _ => .inr rfl, rfl⟩
  have step := release_shrinks req m
  have released := dropped.shrinks step
  have answered' : ∀ addr, res = .ok addr → .answer ((m.release req).requests req).key (.ok addr) ∈
      (m.release req).trace := by
    intro addr ok
    rw [step.key, key, step.trace]
    exact answered addr ok
  have stored := released.store answered'
  refine Matched.log (stored.same (setRequest_field Request.key (by rfl)) rfl rfl rfl rfl) ?_
  cases res with
  | failed err => trivial
  | ok addr =>
    have older :=
      (@store_adds Event.isEnding (fun _ _ => rfl) req (.ok addr) (m.release req)).older.subset (answered' addr rfl)
    change Event.answer (((m.release req).store req (.ok addr)).requests req).key _ ∈ _
    rw [store_requests]
    exact older

theorem Matched.finished : Matched (s.finished req res) := by
  rw [State.finished]
  split
  · exact matched.retire answered
  · exact matched

end

theorem Matched.answered (empty : (s.workers w).queries = [])
    (right : ∀ req, (s.workers w).request = some req → .answer (s.requests req).key res ∈ s.trace) :
    Matched (s.answered w res) := by
  rw [State.answered]
  split
  · exact matched
  · rename_i req slot
    have moved : Shrinks s (s.setWorker w { s.workers w with request := none }) := by
      refine ⟨fun _ => rfl, List.Subset.refl _, List.Subset.refl _, fun w' r slot' => ?_, fun w' => ?_, rfl⟩
      · by_cases self : w' = w
        · simp [self, State.setWorker] at slot'
        · simpa [self, State.setWorker] using slot'
      · by_cases self : w' = w
        · exact .inl (by simpa [self, State.setWorker] using empty)
        · exact .inr (by simp [self, State.setWorker])
    refine Matched.finished ((matched.shrinks moved).log (e := .moved req w) trivial) fun addr ok => ?_
    exact List.mem_cons_of_mem _ (ok ▸ right req slot)

/-! ### Entering -/

/-- The key of a request changes only while nothing refers to it. -/
theorem Matched.submit (placed : Placed s) (query : Query)
    (idle : (s.requests req).running = false) : Matched (s.submit req query) := by
  obtain ⟨noSlot, _, notCached⟩ := placed.elsewhere idle
  have others : ∀ r, r ≠ req → ((s.submit req query).requests r).key = (s.requests r).key :=
    fun r other => congrArg Request.key (Function.update_of_ne other _ _)
  refine ⟨fun entry member => List.mem_cons_of_mem _ (matched.cache entry member), fun id r addr member => ?_,
    fun id w res member => ?_, fun w => ?_, trivial, matched.along⟩
  · obtain ⟨r', owner, _⟩ := placed.owned _ member
    rw [others r fun same => notCached (same ▸ owner.1 ▸ owner.2)]
    exact List.mem_cons_of_mem _ (matched.hits id r addr member)
  · refine ⟨(matched.replies id w res member).1, fun r slot => ?_⟩
    rw [others r fun same => noSlot w (same ▸ slot)]
    exact List.mem_cons_of_mem _ ((matched.replies id w res member).2 r slot)
  · refine (matched.channels w).imp_right ?_
    rintro ⟨r, slot, queries⟩
    refine ⟨r, slot, ?_⟩
    rw [others r fun same => noSlot w (same ▸ slot)]
    exact queries

theorem Matched.delay {d : Delay}
    (hit : ∀ r addr, d = .cacheHit r addr → .answer (s.requests r).key (.ok addr) ∈ s.trace)
    (reply : ∀ w res, d = .answer w res → (s.workers w).queries = [] ∧ ∀ r, (s.workers w).request = some r →
      .answer (s.requests r).key res ∈ s.trace) :
    Matched (s.delay req d) := by
  have key : ∀ r, ((s.delay req d).requests r).key = (s.requests r).key :=
    setRequest_field (s := s) Request.key (by rfl)
  refine ⟨matched.cache, fun id r addr member => ?_, fun id w res member => ?_, fun w => ?_, matched.along⟩
  · rw [key]
    rcases List.mem_append.mp member with old | new
    · exact matched.hits id r addr old
    · exact hit r addr (congrArg Prod.snd (List.mem_singleton.mp new)).symm
  · simp only [key]
    rcases List.mem_append.mp member with old | new
    · exact matched.replies id w res old
    · exact reply w res (congrArg Prod.snd (List.mem_singleton.mp new)).symm
  · simp only [key]
    exact matched.channels w

theorem Matched.occupy (free : (s.workers w).request = none)
    (quiet : ∀ id res, (id, .answer w res) ∉ s.delays) (req : Req) :
    Matched (s.occupy w req) ∧ ((s.occupy w req).workers w).queries = [] := by
  have key : ∀ r, ((s.occupy w req).requests r).key = (s.requests r).key :=
    setRequest_field (s := s) Request.key (by rfl)
  have others : ∀ w', w' ≠ w → (s.occupy w req).workers w' = s.workers w' :=
    fun w' other => Function.update_of_ne other _ _
  have empty : (s.workers w).queries = [] := by
    rcases matched.channels w with empty | ⟨r, slot, _⟩
    · exact empty
    · rw [free] at slot
      cases slot
  have empty' : ((s.occupy w req).workers w).queries = [] := by simpa [State.occupy, State.setWorker] using empty
  refine ⟨⟨matched.cache, fun id r addr member => ?_, fun id w' res member => ?_, fun w' => ?_, matched.along⟩, empty'⟩
  · rw [key]
    exact matched.hits id r addr member
  · have other : w' ≠ w := fun same => quiet id res (same ▸ member)
    simp only [others w' other, key]
    exact matched.replies id w' res member
  · by_cases same : w' = w
    · exact .inl (same ▸ empty')
    · simpa only [others w' same, key] using matched.channels w'

theorem Matched.launch (free : (s.workers w).request = none)
    (quiet : ∀ id res, (id, .answer w res) ∉ s.delays) (req : Req) (reply : Reply) :
    Matched (s.launch w req reply) := by
  obtain ⟨occupied, empty⟩ := matched.occupy free quiet req
  have slot := occupy_request w req s
  cases reply with
  | pending =>
    have others : ∀ w', w' ≠ w → (s.launch w req .pending).workers w' = (s.occupy w req).workers w' :=
      fun w' other => Function.update_of_ne other _ _
    have self : (s.launch w req .pending).workers w =
        { (s.occupy w req).workers w with queries := [((s.occupy w req).requests req).key] } := by
      simp only [State.launch, State.setWorker, Function.update_self, empty, List.nil_append]
    refine { occupied with replies := fun id w' res member => ?_, channels := fun w' => ?_ }
    · rw [others w' fun same => quiet id res (same ▸ member)]
      exact occupied.replies id w' res member
    · by_cases same : w' = w
      · subst same
        rw [self]
        exact .inr ⟨req, slot, rfl⟩
      · rw [others w' same]
        exact occupied.channels w'
  | sync res =>
    have logged := occupied.log (e := .answer ((s.occupy w req).requests req).key res) trivial
    refine logged.delay (by rintro _ _ ⟨⟩) fun w' res' same => ?_
    obtain ⟨rfl, rfl⟩ := Delay.answer.inj same
    refine ⟨empty, fun r slot' => ?_⟩
    obtain rfl := Option.some.inj (slot.symm.trans slot')
    exact List.mem_cons_self

end

/-- No delayed callback is left behind at a worker without a request. -/
theorem PlacedBut.quiet {loose : Option Req} (placed : PlacedBut loose s) (free : (s.workers w).request = none) (id : ℕ)
    (res : Result) : (id, .answer w res) ∉ s.delays := by
  intro member
  obtain ⟨r, slot, _⟩ := placed.owned _ member
  rw [Delay.For, free] at slot
  cases slot

theorem Matched.hit (matched : Matched s) {addr : AddrInfo} (hit : s.Hit req addr) :
    .answer (s.requests req).key (.ok addr) ∈ s.trace := by
  obtain ⟨cached, found, rfl⟩ := hit
  obtain ⟨before, after, split, _⟩ := List.lookup_eq_some_iff.mp found
  exact matched.cache _ (split ▸ List.mem_append_right _ List.mem_cons_self)

theorem Step.matched (step : Step s t) (clean : Clean t) (bounded : Bounded s) (placed : Placed s)
    (matched : Matched s) : Matched t := by
  cases step with
  | enter move =>
    cases move with
    | frame => exact matched.same (fun _ => rfl) rfl rfl rfl rfl
    | expire key =>
      exact matched.shrinks ⟨fun _ => rfl, List.filter_sublist.subset, List.Subset.refl _, fun _ _ slot => slot,
        fun _ => .inr rfl, rfl⟩
    | postpone req query addr idle hit =>
      have submitted := matched.submit placed query idle
      have answered := submitted.hit hit
      have cached := submitted.log (e := .cached req ((s.submit req query).requests req).worker) trivial
      let m := (s.submit req query).log (.cached req ((s.submit req query).requests req).worker)
      have waiting : Matched { m.setRequest req { m.requests req with useCache := false } with
          cacheDelayed := m.cacheDelayed ++ [req] } :=
        cached.same (setRequest_field (s := m) Request.key (by rfl)) rfl rfl rfl rfl
      refine waiting.delay (fun r addr' same => ?_) nofun
      obtain ⟨rfl, rfl⟩ := Delay.cacheHit.inj same
      have key : ((m.setRequest req { m.requests req with useCache := false }).requests req).key =
        ((s.submit req query).requests req).key := setRequest_field (s := m) Request.key (by rfl) req
      exact List.mem_cons_of_mem _ (key ▸ answered)
    | start req query w reply idle _ _ free =>
      have started := (matched.submit placed query idle).log (e := .start req w) trivial
      exact started.launch free (placed.quiet free) req reply
    | grow req query reply idle =>
      have started := (matched.submit placed query idle).log (e := .start req s.size) trivial
      have free : (s.workers s.size).request = none :=
        Option.eq_none_iff_forall_ne_some.mpr fun r slot => (bounded.slot _ r slot).false
      have grown : Matched { (s.submit req query).log (.start req s.size) with size := s.size + 1 } :=
        started.same (fun _ => rfl) rfl rfl rfl rfl
      exact grown.launch free (placed.quiet free) req reply
    | enqueue req query idle =>
      have queued := (matched.submit placed query idle).log
        (e := .queued req ((s.submit req query).requests req).worker) trivial
      exact queued.same (setRequest_field Request.key (by rfl)) rfl rfl rfl rfl
  | frame => exact matched.same (fun _ => rfl) rfl rfl rfl rfl
  | left | visit | visited => exact matched.log trivial
  | uncache req => exact matched.same (setRequest_field (s := s) Request.key (by rfl)) rfl rfl rfl rfl
  | lost id w res rest next =>
    exact matched.shrinks ⟨fun _ => rfl, List.Subset.refl _, next ▸ List.subset_cons_self _ _, fun _ _ slot => slot,
      fun _ => .inr rfl, rfl⟩
  | finish req res running cause =>
    refine matched.retire fun addr ok => ?_
    cases cause with
    | canceled err => cases ok
    | cached addr' hit =>
      cases ok
      exact matched.hit hit
  | assign w req reply front freed =>
    have free : (s.workers w).request = none := by
      cases reply with
      | pending => exact clean.1
      | sync res => exact clean.2.1
    have popped : Matched (s.dequeue req w) :=
      (matched.log (e := .assign req w (s.workers w).request) trivial).same (fun _ => rfl) rfl rfl rfl rfl
    exact popped.launch free (placed.quiet free) req reply
  | answer w position key res asked =>
    rcases matched.channels w with none | ⟨req, slot, only⟩
    · simp [none] at asked
    · have first : position = 0 ∧ key = (s.requests req).key := by
        rw [only] at asked
        cases position with
        | zero => exact ⟨rfl, (Option.some.inj asked).symm⟩
        | succ n => cases asked
      obtain ⟨rfl, rfl⟩ := first
      have empty : ((s.take w 0 (s.requests req).key res).workers w).queries = [] := by
        simp [State.take, State.setWorker, State.log, only]
      have taken : Shrinks s (s.setWorker w { s.workers w with queries := (s.workers w).queries.eraseIdx 0 }) := by
        refine ⟨fun _ => rfl, List.Subset.refl _, List.Subset.refl _,
          fun w' r slot' => take_slots w 0 (s.requests req).key res s w' ▸ slot', fun w' => ?_, rfl⟩
        by_cases self : w' = w
        · exact .inl (self ▸ empty)
        · exact .inr (Function.update_of_ne self _ _)
      refine ((matched.shrinks taken).log (e := .answer (s.requests req).key res) trivial).answered empty ?_
      intro r slot'
      obtain rfl := Option.some.inj (slot.symm.trans (take_slots w 0 (s.requests req).key res s w ▸ slot'))
      exact List.mem_cons_self
  | hit id req addr rest next =>
    have popped : Matched (s.takeDelay req rest) :=
      matched.shrinks ⟨setRequest_field (s := s) Request.key (by rfl), List.Subset.refl _,
        next ▸ List.subset_cons_self _ _, fun _ _ slot => slot, fun _ => .inr rfl, rfl⟩
    refine popped.finished fun addr' same => ?_
    cases same
    have key : ((s.setRequest req { s.requests req with delayed := 0 }).requests req).key = (s.requests req).key :=
      setRequest_field (s := s) Request.key (by rfl) req
    exact key ▸ matched.hits id req addr (next ▸ List.mem_cons_self)
  | reply id w req res rest next slot =>
    have popped : Matched (s.takeDelay req rest) :=
      matched.shrinks ⟨setRequest_field (s := s) Request.key (by rfl), List.Subset.refl _,
        next ▸ List.subset_cons_self _ _, fun _ _ slot => slot, fun _ => .inr rfl, rfl⟩
    obtain ⟨empty, answered⟩ := matched.replies id w res (next ▸ List.mem_cons_self)
    refine popped.answered empty fun r slot' => ?_
    have key : ((s.setRequest req { s.requests req with delayed := 0 }).requests r).key = (s.requests r).key :=
      setRequest_field (s := s) Request.key (by rfl) r
    exact key ▸ answered r slot'

/-! ### Runs -/

/-- What holds in a run with fresh objects in which only idle workers take requests from the queue. -/
structure Orderly (s : State) : Prop where
  clean : Clean s
  placed : Placed s
  unused : Unused s
  matched : Matched s

private theorem run_orderly (cfg : Config) (ts : List Turn) (fresh : Along FreshAt (run ts (initial cfg)).2.trace)
    (idle : Along IdleAt (run ts (initial cfg)).2.trace) : Orderly (run ts (initial cfg)).2 := by
  let I (s : State) : Prop := Bounded s ∧ Outstanding s ∧ (Along FreshAt s.trace → Along IdleAt s.trace → Orderly s)
  have kept : ∀ s t, Step s t → I s → I t := by
    rintro s t step ⟨bounded, life, before⟩
    refine ⟨step.bounded bounded, step.outstanding life, fun fresh idle => ?_⟩
    obtain ⟨clean, placed, unused, matched⟩ := before (fresh.earlier step.older) (idle.earlier step.older)
    have clean' := step.clean fresh idle unused clean
    exact ⟨clean', step.placed clean' bounded placed, step.unused placed life unused,
      step.matched clean' bounded placed matched⟩
  have start : I (initial cfg) :=
    ⟨initial_bounded cfg, ⟨fun _ => rfl, trivial⟩, fun _ _ =>
      ⟨trivial, initial_placed cfg, fun _ _ => rfl, nofun, nofun, nofun, fun _ => .inl rfl, trivial⟩⟩
  exact (run_invariant kept cfg start ts).2.2 fresh idle

/-- With fresh request objects, no answer is mixed up while only idle workers take requests from the queue. -/
theorem run_matches (cfg : Config) (ts : List Turn) (fresh : Along FreshAt (run ts (initial cfg)).2.trace)
    (idle : Along IdleAt (run ts (initial cfg)).2.trace) : Along MatchAt (run ts (initial cfg)).2.trace :=
  (run_orderly cfg ts fresh idle).matched.along

/-- Two requests for one name with one worker, the second of which is answered from the cache. -/
def sharedTurns : List Turn :=
  [⟨4, [], [], .op (.submit 0 ⟨['a'], [], 0, {}, true, 0⟩)⟩,
    ⟨4, [], [], .op (.submit 1 ⟨['a'], [], 0, {}, true, 0⟩)⟩,
    ⟨4, [], [], .answer 0 0 (.ok ⟨1, 60⟩)⟩]

theorem sharedTurns_match :
    let s := (run sharedTurns (initial { workers := 1 })).2
    Along FreshAt s.trace ∧ Along IdleAt s.trace ∧ .callback 1 ⟨['a'], [], {}⟩ (.ok ⟨1, 60⟩) none ∈ s.trace ∧
      Along MatchAt s.trace :=
  ⟨by decide, by decide, by decide, run_matches _ sharedTurns (by decide) (by decide)⟩

/-- The callback of the request that is answered from the cache submits two more. The first takes the worker, and
the loop gives the second to the same worker, where the answer to the first finds it. -/
def mixedTurns : List Turn :=
  [⟨4, [], [], .op (.submit 0 ⟨['a'], [], 0, {}, true, 0⟩)⟩,
    ⟨4, [], [], .op (.submit 1 ⟨['a'], [], 0, {}, true, 0⟩)⟩,
    ⟨4, [.ret, .op (.submit 2 ⟨['b'], [], 0, {}, true, 0⟩), .op (.submit 3 ⟨['c'], [], 0, {}, true, 0⟩)], [],
      .answer 0 0 (.ok ⟨1, 60⟩)⟩,
    ⟨4, [], [], .answer 0 0 (.ok ⟨2, 60⟩)⟩]

theorem mixedTurns_mismatch :
    let s := (run mixedTurns (initial { workers := 1 })).2
    Along FreshAt s.trace ∧ ¬ Along MatchAt s.trace := by
  decide

end UniEvent.Resolver
