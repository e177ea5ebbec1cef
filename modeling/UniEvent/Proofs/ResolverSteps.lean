import UniEvent.Model.Resolver
import UniEvent.Program.Log
import UniEvent.Program.Reach

/-! # The moves of a resolver

The user's code runs at one point only, the callback of a request. Between two such points the resolver
makes the moves of `Step`: a request is submitted and placed, a request is completed, or a free worker
takes a request from the queue. Every call leads along these moves.
-/

namespace UniEvent.Resolver

open Program Program.Exec

namespace State

/-- `Worker::resolve`, when c-ares replies as given. -/
def launch (w : ℕ) (req : Req) (reply : Reply) (s : State) : State :=
  let s := s.occupy w req
  match reply with
  | .pending => s.setWorker w { s.workers w with queries := (s.workers w).queries ++ [(s.requests req).key] }
  | .sync res => (s.log (.answer (s.requests req).key res)).delay req (.answer w res)

/-- What a worker that takes a request leaves alone. -/
theorem launch_frame (w : ℕ) (req : Req) (reply : Reply) (s : State) :
    (s.launch w req reply).size = s.size ∧ (s.launch w req reply).cfg = s.cfg ∧
      (s.launch w req reply).queue = s.queue ∧ (s.launch w req reply).cacheDelayed = s.cacheDelayed ∧
      (s.launch w req reply).script = s.script := by
  cases reply with
  | pending => exact ⟨rfl, rfl, rfl, rfl, rfl⟩
  | sync res => exact ⟨rfl, rfl, rfl, rfl, rfl⟩

theorem launch_slots (w : ℕ) (req : Req) (reply : Reply) (s : State) (w' : ℕ) :
    ((s.launch w req reply).workers w').request = if w' = w then some req else (s.workers w').request := by
  cases reply with
  | pending =>
    by_cases same : w' = w
    · simp [launch, occupy, setWorker, same]
    · simp [launch, occupy, setWorker, setRequest, same]
  | sync res =>
    by_cases same : w' = w
    · simp [launch, occupy, setWorker, delay, log, setRequest, same]
    · simp [launch, occupy, setWorker, delay, log, setRequest, same]

/-- What a submission leaves alone. -/
theorem submit_frame (req : Req) (query : Query) (s : State) :
    (s.submit req query).size = s.size ∧ (s.submit req query).cfg = s.cfg ∧ (s.submit req query).queue = s.queue ∧
      (s.submit req query).cacheDelayed = s.cacheDelayed ∧ (s.submit req query).script = s.script ∧
      (s.submit req query).workers = s.workers := ⟨rfl, rfl, rfl, rfl, rfl, rfl⟩

theorem postpone_frame (req : Req) (addr : AddrInfo) (s : State) :
    (s.postpone req addr).size = s.size ∧ (s.postpone req addr).cfg = s.cfg ∧ (s.postpone req addr).queue = s.queue ∧
      (s.postpone req addr).cacheDelayed = s.cacheDelayed ++ [req] ∧ (s.postpone req addr).script = s.script ∧
      (s.postpone req addr).workers = s.workers := ⟨rfl, rfl, rfl, rfl, rfl, rfl⟩

theorem enqueue_frame (req : Req) (s : State) :
    (s.enqueue req).size = s.size ∧ (s.enqueue req).cfg = s.cfg ∧ (s.enqueue req).queue = s.queue ++ [req] ∧
      (s.enqueue req).cacheDelayed = s.cacheDelayed ∧ (s.enqueue req).script = s.script ∧
      (s.enqueue req).workers = s.workers := ⟨rfl, rfl, rfl, rfl, rfl, rfl⟩

/-- The completion of a request, which does nothing to a request that is not running. -/
def finished (req : Req) (res : Result) (s : State) : State :=
  if (s.requests req).running = true then s.retire req res else s

/-- The completion of the request of a worker. -/
def answered (w : ℕ) (res : Result) (s : State) : State :=
  match (s.workers w).request with
  | none => s
  | some req => (s.move w req).finished req res

/-- c-ares forgets a query that it answers. -/
def take (w position : ℕ) (key : CacheKey) (res : Result) (s : State) : State :=
  (s.setWorker w { s.workers w with queries := (s.workers w).queries.eraseIdx position }).log (.answer key res)

/-- The request is cached under its own key. -/
def Hit (req : Req) (addr : AddrInfo) (s : State) : Prop :=
  ∃ cached, s.cache.lookup (s.requests req).key = some cached ∧ cached.address = addr

/-- A request that named the worker has been completed. -/
def Freed (w : ℕ) (s : State) : Prop := ∃ req key res, .callback req key res (some w) ∈ s.trace

/-- No worker of the pool is without a request. -/
def AllBusy (s : State) : Prop := ∀ w < s.size, (s.workers w).request ≠ none

end State

/-- Why a request is completed other than by its worker or its delayed callback. -/
inductive Cause (s : State) (req : Req) : Result → Prop
  | canceled (err : Err) : Cause s req (.failed err)
  | cached (addr : AddrInfo) (hit : s.Hit req addr) (waiting : s.queue.head? = some req) : Cause s req (.ok addr)

/-- The moves of `resolve`. -/
inductive Enter : State → State → Prop
  | frame (s : State) (timers : Req → Bool) (dnsRollTimer : Bool) (replies : List Reply) :
      Enter s { s with timers, dnsRollTimer, replies }
  | expire (s : State) (key : CacheKey) :
      Enter s { s with cache := s.cache.filter fun entry => decide (entry.1 ≠ key) }
  | postpone (s : State) (req : Req) (query : Query) (addr : AddrInfo) (idle : (s.requests req).running = false)
      (hit : (s.submit req query).Hit req addr) : Enter s ((s.submit req query).postpone req addr)
  | start (s : State) (req : Req) (query : Query) (w : ℕ) (reply : Reply) (idle : (s.requests req).running = false)
      (empty : s.queue = []) (bound : w < s.size) (free : (s.workers w).request = none) :
      Enter s (((s.submit req query).log (.start req w)).launch w req reply)
  | grow (s : State) (req : Req) (query : Query) (reply : Reply) (idle : (s.requests req).running = false)
      (empty : s.queue = []) (below : s.size < s.cfg.workers) (busy : s.AllBusy) :
      Enter s (State.launch s.size req reply { (s.submit req query).log (.start req s.size) with size := s.size + 1 })
  | enqueue (s : State) (req : Req) (query : Query) (idle : (s.requests req).running = false)
      (full : s.queue = [] → s.AllBusy ∧ s.cfg.workers ≤ s.size) : Enter s ((s.submit req query).enqueue req)

inductive Step : State → State → Prop
  /-- Timers, exceptions in transit, time and the environment. -/
  | frame (s : State) (timers : Req → Bool) (excs : ℕ → Bool) (dnsRollTimer : Bool) (now : ℕ) (script : List Act)
      (replies : List Reply) : Step s { s with timers, excs, dnsRollTimer, now, script, replies }
  | left (s : State) : Step s (s.log (.left s.queue))
  | visit (s : State) (w : ℕ) : Step s (s.log (.visit w))
  | visited (s : State) : Step s (s.log .visited)
  | uncache (s : State) (req : Req) : Step s (s.setRequest req { s.requests req with useCache := false })
  | enter {s t : State} (move : Enter s t) : Step s t
  | finish (s : State) (req : Req) (res : Result) (running : (s.requests req).running = true)
      (cause : Cause s req res) : Step s (s.retire req res)
  | assign (s : State) (w : ℕ) (req : Req) (reply : Reply) (front : s.queue.head? = some req) (freed : s.Freed w) :
      Step s (State.launch w req reply
        (s.dequeue req w))
  | answer (s : State) (w position : ℕ) (key : CacheKey) (res : Result)
      (asked : (s.workers w).queries[position]? = some key) : Step s ((s.take w position key res).answered w res)
  | hit (s : State) (id : ℕ) (req : Req) (addr : AddrInfo) (rest : List (ℕ × Delay))
      (next : s.delays = (id, .cacheHit req addr) :: rest) :
      Step s (State.finished req (.ok addr)
        (s.takeDelay req rest))
  | reply (s : State) (id w : ℕ) (req : Req) (res : Result) (rest : List (ℕ × Delay))
      (next : s.delays = (id, .answer w res) :: rest) (slot : (s.workers w).request = some req) :
      Step s (State.answered w res (s.takeDelay req rest))
  /-- The delayed callback of a worker without a request fails. -/
  | lost (s : State) (id w : ℕ) (res : Result) (rest : List (ℕ × Delay))
      (next : s.delays = (id, .answer w res) :: rest) (slot : (s.workers w).request = none) :
      Step s { s with delays := rest }

abbrev Path : State → State → Prop := Relation.ReflTransGen Step

/-- The recursive calls make moves only. -/
structure Hooks.Ok (h : Hooks) : Prop where
  finish : ∀ req res s, Cause s req res → wp (h.finishResolve req res) (Reached Step s) s
  user : Steps Step h.user

theorem Hooks.Ok.spent : Hooks.Ok .spent := ⟨fun _ _ _ _ => .refl, .halt _⟩

variable {h : Hooks} {s t : State} {req : Req} {w : ℕ}

theorem frame_replies (s : State) (replies : List Reply) : Step s { s with replies } := .frame s _ _ _ _ _ _

private theorem frame_timers (s : State) (timers : Req → Bool) : Step s { s with timers } := .frame s _ _ _ _ _ _

theorem frame_excs (s : State) (excs : ℕ → Bool) : Step s { s with excs } := .frame s _ _ _ _ _ _

theorem frame_rollTimer (s : State) (dnsRollTimer : Bool) : Step s { s with dnsRollTimer } := .frame s _ _ _ _ _ _

/-! ### The trace only grows -/

/-- What the completion of a request records. -/
def Event.isEnding : Event → Bool
  | .store _ _ | .callback _ _ _ _ => true
  | _ => false

/-- What answers record. -/
def Event.isOutcome : Event → Bool
  | .answer _ _ | .moved _ _ => true
  | e => e.isEnding

/-- Events of some kind have been added to the log. -/
def Adds (kind : Event → Bool) (before after : List Event) : Prop :=
  ∃ events, after = events ++ before ∧ ∀ e ∈ events, kind e = true

section Adds
variable {kind : Event → Bool} {l l' : List Event}

theorem Adds.refl (l : List Event) : Adds kind l l := ⟨[], rfl, nofun⟩

theorem Adds.cons (first : Adds kind l l') {e : Event} (right : kind e = true) : Adds kind l (e :: l') := by
  obtain ⟨events, rfl, all⟩ := first
  refine ⟨e :: events, rfl, fun e' member => ?_⟩
  rcases List.mem_cons.mp member with same | other
  · exact same ▸ right
  · exact all e' other

theorem Adds.older (adds : Adds kind l l') : l <:+ l' := by
  obtain ⟨events, rfl, _⟩ := adds
  exact List.suffix_append _ _

theorem Adds.along {P : Event → List Event → Prop} (adds : Adds kind l l') (holds : Along P l)
    (right : ∀ e before, kind e = true → P e before) : Along P l' := by
  obtain ⟨events, rfl, all⟩ := adds
  exact holds.append fun e member before => right e before (all e member)

theorem Adds.trans {l'' : List Event} (first : Adds kind l l') (second : Adds kind l' l'') : Adds kind l l'' := by
  obtain ⟨before, rfl, all⟩ := first
  obtain ⟨after, rfl, all'⟩ := second
  exact ⟨after ++ before, (List.append_assoc ..).symm,
    fun e member => (List.mem_append.mp member).elim (all' e) (all e)⟩

theorem Adds.outcomes (adds : Adds Event.isEnding l l') : Adds Event.isOutcome l l' := by
  obtain ⟨events, rfl, all⟩ := adds
  refine ⟨events, rfl, fun e member => ?_⟩
  have ending := all e member
  cases e with
  | store | callback => rfl
  | _ => cases ending

end Adds

section Stores
variable {kind : Event → Bool} (stores : ∀ key addr, kind (.store key addr) = true)
include stores

private theorem emplace_adds (key : CacheKey) (addr : AddrInfo) (s : State) :
    Adds kind s.trace (s.emplace key addr).trace := by
  rw [State.emplace]
  split
  · exact .refl _
  · exact (Adds.refl _).cons (stores key addr)

theorem store_adds (req : Req) (res : Result) (s : State) : Adds kind s.trace (s.store req res).trace := by
  cases res with
  | failed err => exact .refl _
  | ok addr =>
    simp only [State.store]
    split
    · split
      · exact emplace_adds stores _ _ { s with cache := [] }
      · exact emplace_adds stores _ _ s
    · exact .refl _

end Stores

theorem release_trace (req : Req) (s : State) : (s.release req).trace = s.trace := by
  rw [State.release]
  split
  · rw [State.cancelWorker]
    split <;> rfl
  · split <;> rfl

theorem retire_adds (req : Req) (res : Result) (s : State) : Adds Event.isEnding s.trace (s.retire req res).trace := by
  let m : State := s.disarm req
  have released : Adds Event.isEnding s.trace (m.release req).trace := (release_trace req m).symm ▸ .refl _
  exact (released.trans (store_adds (fun _ _ => rfl) req res _)).cons rfl

theorem finished_adds (req : Req) (res : Result) (s : State) :
    Adds Event.isEnding s.trace (s.finished req res).trace := by
  rw [State.finished]
  split
  · exact retire_adds req res s
  · exact .refl _

theorem answered_adds (w : ℕ) (res : Result) (s : State) : Adds Event.isOutcome s.trace (s.answered w res).trace := by
  rw [State.answered]
  split
  · exact .refl _
  · rename_i req _
    have moved : Adds Event.isOutcome s.trace (s.move w req).trace := (Adds.refl _).cons rfl
    exact moved.trans (finished_adds req res _).outcomes

theorem launch_adds (w : ℕ) (req : Req) (reply : Reply) (s : State) :
    Adds Event.isOutcome s.trace (s.launch w req reply).trace := by
  cases reply with
  | pending => exact .refl _
  | sync res => exact (Adds.refl _).cons rfl

private theorem suffix_two (a b : Event) (l : List Event) : l <:+ a :: b :: l :=
  (List.suffix_cons b l).trans (List.suffix_cons a _)

theorem Enter.older (enter : Enter s t) : s.trace <:+ t.trace := by
  cases enter with
  | frame | expire => exact List.suffix_refl _
  | postpone | enqueue => exact suffix_two _ _ _
  | start req query w reply =>
    exact (suffix_two _ _ _).trans (launch_adds w req reply ((s.submit req query).log (.start req w))).older
  | grow req query reply =>
    exact (suffix_two _ _ _).trans (launch_adds s.size req reply
      { (s.submit req query).log (.start req s.size) with size := s.size + 1 }).older

theorem Step.older (step : Step s t) : s.trace <:+ t.trace := by
  cases step with
  | frame | uncache | lost => exact List.suffix_refl _
  | left | visit | visited => exact List.suffix_cons _ _
  | enter move => exact move.older
  | assign w req reply =>
    exact (List.suffix_cons _ _).trans (launch_adds w req reply
      (s.dequeue req w)).older
  | finish req res => exact (retire_adds req res s).older
  | answer w position key res =>
    exact (List.suffix_cons _ _).trans (answered_adds w res (s.take w position key res)).older
  | hit id req addr rest =>
    exact (finished_adds req (.ok addr) { s.setRequest req { s.requests req with delayed := 0 } with
      delays := rest }).older
  | reply id w req res rest =>
    exact (answered_adds w res (s.takeDelay req rest)).older

theorem path_older (path : Path s t) : s.trace <:+ t.trace := by
  induction path with
  | refl => exact List.suffix_refl _
  | tail _ step ih => exact ih.trans step.older

theorem State.Freed.later (freed : s.Freed w) (path : Path s t) : t.Freed w := by
  obtain ⟨req, key, res, member⟩ := freed
  exact ⟨req, key, res, (path_older path).subset member⟩

/-! ### Workers -/

private theorem wp_nextReply {α : Type} {f : Reply → Exec State α} {Q : Outcome α → State → Prop} :
    wp (nextReply >>= f) Q s ↔ wp (f (s.replies.headD .pending)) Q { s with replies := s.replies.tail } := by
  rw [wp_bind]
  rfl

@[simp] theorem occupy_request (w : ℕ) (req : Req) (s : State) : ((s.occupy w req).workers w).request = some req := by
  simp [State.occupy, State.setWorker]

/-- `Worker::resolve` returns, after one of the two replies. -/
theorem wp_workerResolve {Q : Outcome Unit → State → Prop}
    (goal : ∀ reply replies, Q (.done ()) { s.launch w req reply with replies }) : wp (workerResolve w req) Q s := by
  simp only [workerResolve, aresGetaddrinfo]
  rw [wp_modify_bind, wp_get_bind, wp_nextReply]
  have slot := occupy_request w req s
  cases (s.occupy w req).replies.headD .pending with
  | pending => exact goal .pending _
  | sync res =>
    simp only [workerOnResolve]
    rw [wp_modify_bind, wp_get_bind]
    simp only [State.log, slot, Bool.false_eq_true, if_false]
    exact goal (.sync res) _

/-- A worker that takes a request makes one move. -/
theorem workerResolve_reached {m : State} (step : ∀ reply, Step m (s.launch w req reply)) :
    wp (workerResolve w req) (Reached Step m) s :=
  wp_workerResolve fun reply replies => .tail (.single (step reply)) (frame_replies _ replies)

private theorem workerResolve_entered {m : State} (step : ∀ reply, Enter m (s.launch w req reply)) :
    wp (workerResolve w req) (Reached Enter m) s :=
  wp_workerResolve fun reply replies => .tail (.single (step reply)) (.frame _ _ _ replies)

/-! ### Requests -/

/-- `find` forgets an entry that has expired, and otherwise does nothing. -/
def Searched (key : CacheKey) (s : State) (o : Outcome (Option AddrInfo)) (t : State) : Prop :=
  (o = .done none ∧ (t = s ∨ t = { s with cache := s.cache.filter fun entry => decide (entry.1 ≠ key) })) ∨
    ∃ addr, o = .done (some addr) ∧ t = s ∧ ∃ cached, s.cache.lookup key = some cached ∧ cached.address = addr

theorem find_searched (key : CacheKey) : wp (find key) (Searched key s) s := by
  simp only [find]
  rw [wp_get_bind]
  split
  · exact .inl ⟨rfl, .inl rfl⟩
  · rename_i cached found
    split
    · exact .inl ⟨rfl, .inr rfl⟩
    · exact .inr ⟨cached.address, rfl, rfl, cached, found, rfl⟩

theorem startTimer_eq (req : Req) (timeout : ℕ) {Q : Outcome Unit → State → Prop}
    (goal : ∀ timers, Q (.done ()) { s with timers }) : wp (startTimer req timeout) Q s := by
  rw [startTimer, wp_when]
  exact ⟨fun _ => goal _, fun _ => goal s.timers⟩

theorem idle?_none (none : s.idle? = none) : s.AllBusy := by
  intro w bound free
  have all := List.find?_eq_none.mp none w (List.mem_range.mpr bound)
  exact all (by simpa using free)

private theorem idle?_some (found : s.idle? = some w) : w < s.size ∧ (s.workers w).request = none := by
  refine ⟨List.mem_range.mp (List.mem_of_find?_eq_some found), ?_⟩
  simpa using List.find?_some found

/-- Placing a request that has just been submitted is one move with its submission. -/
theorem place_entered {query : Query} (idle : (s.requests req).running = false) :
    wp (place req) (Reached Enter s) (s.submit req query) := by
  simp only [place]
  rw [wp_get_bind]
  split
  · rename_i empty
    split
    · rename_i w found
      obtain ⟨bound, free⟩ := idle?_some found
      rw [wp_modify_bind]
      refine wp_after (.single (.frame s s.timers true s.replies)) (workerResolve_entered fun reply => ?_)
      exact .start { s with dnsRollTimer := true } req query w reply idle empty bound free
    · rename_i none
      split
      · rename_i below
        rw [wp_modify_bind]
        exact workerResolve_entered fun reply => .grow s req query reply idle empty below (idle?_none none)
      · rename_i full
        refine .single (.enqueue s req query idle fun _ => ⟨idle?_none none, Nat.le_of_not_lt full⟩)
  · rename_i some
    exact .single (.enqueue s req query idle fun empty => absurd empty some)

/-- The timer of a request does not matter to its placement. -/
theorem placeTimed_entered {query : Query} (timeout : ℕ) (idle : (s.requests req).running = false) :
    wp (do startTimer req timeout; place req) (Reached Enter s) (s.submit req query) := by
  rw [wp_bind]
  refine startTimer_eq req timeout fun timers => ?_
  exact wp_after (.single (.frame s timers s.dnsRollTimer s.replies)) (place_entered (s := { s with timers }) idle)

theorem resolve_entered (query : Query) (idle : (s.requests req).running = false) :
    wp (resolve req query) (Reached Enter s) s := by
  simp only [resolve]
  rw [wp_modify_bind, wp_get_bind]
  split
  · rw [wp_bind]
    refine wp_mono (find_searched _) ?_
    rintro o t (⟨rfl, same | expired⟩ | ⟨addr, rfl, rfl, hit⟩)
    · subst same
      exact placeTimed_entered query.timeout idle
    · subst expired
      exact wp_after (.single (.expire s _)) (placeTimed_entered (s := { s with cache := _ }) query.timeout idle)
    · exact .single (.postpone s req query addr idle hit)
  · exact placeTimed_entered query.timeout idle

theorem resolve_reached (query : Query) (idle : (s.requests req).running = false) :
    wp (resolve req query) (Reached Step s) s :=
  wp_mono (resolve_entered query idle) fun _ _ path =>
    Relation.ReflTransGen.mono (r := Enter) (p := Step) (fun _ _ => .enter) _ _ path

/-! ### Completion -/

theorem lookup_hit (req : Req) :
    wp (lookup req) (fun o t => Path s t ∧ t.queue = s.queue ∧ ∀ addr, o = .done (some addr) → t.Hit req addr) s := by
  simp only [lookup]
  rw [wp_get_bind]
  split
  · refine wp_mono (find_searched _) ?_
    rintro o t (⟨rfl, same | expired⟩ | ⟨addr, rfl, rfl, hit⟩)
    · exact ⟨same ▸ .refl, same ▸ rfl, fun _ none => by cases none⟩
    · exact ⟨expired ▸ .single (.enter (.expire s _)), expired ▸ rfl, fun _ none => by cases none⟩
    · exact ⟨.refl, rfl, fun _ same => by cases same; exact hit⟩
  · exact ⟨.refl, rfl, fun _ none => by cases none⟩

theorem finished_reached {res : Result} (cause : Cause s req res) : Path s (s.finished req res) := by
  rw [State.finished]
  split
  · rename_i running
    exact .single (.finish s req res running cause)
  · exact .refl

theorem serve_reached (ok : h.Ok) {addr : AddrInfo} (hit : s.Hit req addr) (waiting : s.queue.head? = some req) :
    wp (serve h req addr) (Reached Step s) s := by
  simp only [serve]
  rw [wp_modify_bind]
  refine wp_after (.single (.uncache s req))
    (wp_bind_reached (wp_attempt_reached (ok.finish req _ _ ?_)) fun failed => ?_)
  · obtain ⟨cached, found, same⟩ := hit
    refine .cached addr ⟨cached, ?_, same⟩ waiting
    simpa [State.setRequest, Request.key] using found
  · exact .when (.bind (.modify fun s => .left s) fun _ => .halt _)

theorem drain_reached (ok : h.Ok) (w : ℕ) (budget : ℕ) :
    ∀ s : State, s.Freed w → wp (drain h w budget) (Reached Step s) s := by
  induction budget with
  | zero => exact fun _ _ => .refl
  | succ budget ih =>
    intro s freed
    simp only [drain]
    rw [wp_get_bind]
    split
    · exact .refl
    · rename_i req rest queue
      rw [wp_bind]
      refine wp_mono (lookup_hit req) ?_
      rintro (found | why) t ⟨path, same, hit⟩
      · have front : t.queue.head? = some req := by rw [same, queue]; rfl
        refine wp_after path ?_
        cases found with
        | some addr =>
          exact wp_bind_along (serve_reached ok (hit addr rfl) front) fun _ u later =>
            ih u (freed.later (path.trans later))
        | none =>
          rw [wp_modify_bind]
          exact workerResolve_reached fun reply => .assign t w req reply front (freed.later path)
      · exact path

theorem afterResolve_reached (ok : h.Ok) (worker : Option ℕ) (freed : ∀ w, worker = some w → s.Freed w) :
    wp (afterResolve h worker) (Reached Step s) s := by
  simp only [afterResolve]
  rw [wp_get_bind]
  split
  · exact .refl
  · split
    · exact .refl
    · split
      · exact Steps.when (.modify fun s => frame_rollTimer s false) s
      · exact drain_reached ok _ _ s (freed _ rfl)

theorem retire_freed (res : Result) (w : ℕ) (names : (s.requests req).worker = some w) : (s.retire req res).Freed w :=
  ⟨req, _, res, by
    rw [← names]
    exact List.mem_cons_self ..⟩

section

variable (ok : h.Ok)

include ok

/-- The completion of a request leads on from the state in which it has left. -/
theorem finishResolve_reached (req : Req) (res : Result) (s : State) :
    wp (finishResolve h req res) (Reached Step (s.finished req res)) s := by
  simp only [finishResolve]
  rw [wp_get_bind, State.finished]
  split
  · rw [wp_modify_bind]
    exact wp_scopeGuard_reached (ok.user _) fun t path => afterResolve_reached ok _ fun w names =>
      (retire_freed res w names).later path
  · exact .refl

private theorem workerFinish_reached (w : ℕ) (res : Result) (s : State) :
    wp (workerFinish h w res) (Reached Step (s.answered w res)) s := by
  simp only [workerFinish]
  rw [wp_get_bind, State.answered]
  cases (s.workers w).request with
  | none => exact .refl
  | some req =>
    rw [wp_modify_bind]
    exact finishResolve_reached ok req res _

theorem cancel_reached (req : Req) (err : Err) : Steps Step (cancel h req err) :=
  fun s => wp_after (finished_reached (.canceled err)) (finishResolve_reached ok req _ s)

/-! ### Reset, the user and the loop -/

theorem cancelWorkers_reached (n : ℕ) : ∀ w, Steps Step (cancelWorkers h w n) := by
  induction n with
  | zero => exact fun w => .modify fun s => .visited s
  | succ n ih =>
    intro w
    refine .bind (.modify fun s => .visit s w) fun _ => .get fun s => ?_
    split
    · exact Steps.bind (cancel_reached ok _ _) (fun _ => ih (w + 1)) s
    · exact ih (w + 1) s

theorem cancelUpTo_reached (list : State → List Req) (last : Req) (budget : ℕ) :
    Steps Step (cancelUpTo h list last budget) := by
  induction budget with
  | zero => exact .halt _
  | succ budget ih =>
    refine .get fun s => ?_
    split
    · exact .refl
    · split
      · exact cancel_reached ok _ _ s
      · exact Steps.bind (cancel_reached ok _ _) (fun _ => ih) s

theorem cancelList_reached (list : State → List Req) (last : Option Req) : Steps Step (cancelList h list last) := by
  cases last with
  | none => exact .pure ()
  | some last => exact cancelUpTo_reached ok list last _

theorem reset_reached : Steps Step (reset h) :=
  .bind (.modify fun s => frame_rollTimer s false) fun _ => .get fun s =>
    Steps.bind (cancelWorkers_reached ok _ _) (fun _ => .bind (cancelList_reached ok _ _) fun _ =>
      cancelList_reached ok _ _) s

private theorem runOp_reached (op : Op) : Steps Step (runOp h op) := by
  cases op with
  | submit req query =>
    refine .get fun s => ?_
    rw [wp_when]
    exact ⟨fun idle => resolve_reached query idle, fun _ => .refl⟩
  | cancel req => exact cancel_reached ok req _
  | reset => exact reset_reached ok

end

private theorem nextAct_reached : Steps Step nextAct :=
  .get fun s => Steps.bind (.modify fun s => .frame s _ _ _ _ _ _) (fun _ => .pure _) s

private theorem user_reached (ok : h.Ok) : Steps Step (user h) := by
  refine .bind nextAct_reached fun act => ?_
  cases act with
  | ret => exact .pure ()
  | throw | stop => exact .halt _
  | op op => exact .bind (runOp_reached ok op) fun _ => ok.user

theorem members_ok (n : ℕ) : (members n).Ok := by
  induction n with
  | zero => exact .spent
  | succ n ih =>
    exact ⟨fun req res s cause => wp_after (finished_reached cause) (finishResolve_reached ih req res s),
      user_reached ih⟩

private theorem workerOnResolve_reached (ok : h.Ok) (w : ℕ) (res : Result) (s : State) :
    wp (workerOnResolve (workerFinish h w res) w true res) (Reached Step (s.answered w res)) s := by
  have finished := wp_attempt_reached (workerFinish_reached ok w res s)
  simp only [workerOnResolve]
  rw [wp_get_bind]
  cases slot : (s.workers w).request with
  | none =>
    rw [State.answered, slot]
    exact .refl
  | some req => exact wp_bind_reached finished fun _ => .when (.modify fun s => frame_excs s _)

private theorem answer_reached (ok : h.Ok) (w position : ℕ) (res : Result) : Steps Step (answer h w position res) := by
  refine .get fun s => ?_
  split
  · exact .refl
  · rename_i key asked
    rw [wp_modify_bind]
    refine wp_bind_reached ?_ fun _ => .get fun s => ?_
    · exact wp_after (.single (.answer s w position key res asked)) (workerOnResolve_reached ok w res _)
    · exact Steps.when (.bind (.modify fun s => frame_excs s _) fun _ => .halt _) s

private theorem fire_reached (ok : h.Ok) : Steps Step (fire h) := by
  refine .get fun s => ?_
  split
  · exact .refl
  · rename_i id req addr rest next
    rw [wp_modify_bind]
    exact wp_after (.single (.hit s id req addr rest next)) (finishResolve_reached ok req _ _)
  · rename_i id w res rest next
    rw [wp_modify_bind]
    split
    · rename_i none
      exact .single (.lost s id w res rest next none)
    · rename_i req slot
      rw [wp_modify_bind]
      exact wp_after (.single (.reply s id w req res rest next slot)) (workerFinish_reached ok w res _)

private theorem perform_reached (ok : h.Ok) (task : Task) : Steps Step (perform h task) := by
  cases task with
  | op op => exact runOp_reached ok op
  | answer w position res => exact answer_reached ok w position res
  | fire => exact fire_reached ok
  | timer req =>
    exact .get fun s => Steps.when (.bind (.modify fun s => frame_timers s _) fun _ => cancel_reached ok req _) s
  | sleep time => exact .modify fun s => .frame s _ _ _ _ _ _

private theorem run_reached (ts : List Turn) : Steps Step (run ts) := by
  induction ts with
  | nil => exact .pure ()
  | cons t ts ih =>
    refine .bind (.ignoring (.bind (.modify fun s => .frame s _ _ _ _ _ _) fun _ => ?_)) fun _ => ih
    exact perform_reached (members_ok _) t.task

/-- An invariant of the moves holds after every run. -/
theorem run_invariant {I : State → Prop} (kept : ∀ s t, Step s t → I s → I t) (cfg : Config) (holds : I (initial cfg))
    (ts : List Turn) : I (run ts (initial cfg)).2 :=
  Reached.invariant (run_reached ts (initial cfg)) kept holds

/-! ### Calls that come back

`R` relates the state at a call to the one where control is back. The user and the loop keep it if the members do.
-/

section Back

variable {R : State → State → Prop}

/-- What the relation allows for: what only the loop changes, and the members that the user calls. -/
structure Rule (R : State → State → Prop) (h : Hooks) : Prop where
  frame : ∀ s timers excs now script replies, R s { s with timers, excs, now, script, replies }
  submit : ∀ {s req} query, (s.requests req).running = false → wp (resolve req query) (Backed R s) s
  cancel : ∀ req err s, wp (cancel h req err) (Backed R s) s
  reset : ∀ s, wp (reset h) (Backed R s) s

variable [Std.Refl R] [IsTrans State R]

omit [Std.Refl R] in
private theorem cancelUpTo_back (canceled : ∀ req err s, wp (cancel h req err) (Backed R s) s) (list : State → List Req)
    (last : Req) (budget : ℕ) : ∀ s : State, wp (cancelUpTo h list last budget) (Backed R s) s := by
  induction budget with
  | zero => exact fun _ => nofun
  | succ budget ih =>
    intro s
    simp only [cancelUpTo]
    rw [wp_get_bind]
    split
    · exact nofun
    · split
      · exact canceled _ _ s
      · exact wp_bind_backed (canceled _ _ s) fun _ t _ => ih t

theorem cancelList_back (canceled : ∀ req err s, wp (cancel h req err) (Backed R s) s) (list : State → List Req)
    (last : Option Req) (s : State) : wp (cancelList h list last) (Backed R s) s := by
  cases last with
  | none => exact fun _ => Std.Refl.refl s
  | some last => exact cancelUpTo_back canceled list last _ s

omit [IsTrans State R] in
theorem Rule.runOp (rule : Rule R h) (op : Op) (s : State) : wp (runOp h op) (Backed R s) s := by
  cases op with
  | submit req query =>
    simp only [Resolver.runOp]
    rw [wp_get_bind]
    exact wp_when_backed fun idle => rule.submit query idle
  | cancel req => exact rule.cancel req _ s
  | reset => exact rule.reset s

theorem Rule.user (rule : Rule R h) (again : ∀ s, wp h.user (Backed R s) s) (s : State) :
    wp (user h) (Backed R s) s := by
  simp only [Resolver.user, nextAct]
  rw [wp_bind, wp_get_bind, wp_modify_bind, wp_pure, next_done]
  refine wp_backed_after (rule.frame s s.timers s.excs s.now s.script.tail s.replies) ?_
  cases s.script.headD .ret with
  | ret | throw => exact fun _ => Std.Refl.refl _
  | stop => exact nofun
  | op op => exact wp_bind_backed (rule.runOp op _) fun _ t _ => again t

theorem Rule.perform (rule : Rule R h) (answered : ∀ w position res s, wp (answer h w position res) (Backed R s) s)
    (fired : ∀ s, wp (fire h) (Backed R s) s) (task : Task) (s : State) : wp (perform h task) (Backed R s) s := by
  cases task with
  | op op => exact rule.runOp op s
  | answer w position res => exact answered w position res s
  | fire => exact fired s
  | timer req =>
    simp only [Resolver.perform]
    rw [wp_get_bind]
    refine wp_when_backed fun _ => ?_
    rw [wp_modify_bind]
    exact wp_backed_after (rule.frame s _ _ _ _ _) (rule.cancel req _ _)
  | sleep time => exact fun _ => rule.frame s _ _ _ _ _

theorem run_back (rule : ∀ n, Rule R (members n))
    (performed : ∀ n task s, wp (perform (members n) task) (Backed R s) s) (ts : List Turn) :
    ∀ s : State, wp (run ts) (Backed R s) s := by
  induction ts with
  | nil => exact fun s _ => Std.Refl.refl s
  | cons t ts ih =>
    intro s
    have turned : wp (turn t) (Backed R s) s := by
      simp only [turn]
      rw [wp_modify_bind]
      exact wp_backed_after ((rule t.depth).frame s _ _ _ _ _) (performed t.depth t.task _)
    exact wp_bind_backed (wp_ignoring turned) fun _ u _ => ih u

end Back

end UniEvent.Resolver
