import UniEvent.Proofs.ResolverMild
import UniEvent.Proofs.ResolverTrace

/-! # What `reset` cancels

`reset` cancels the requests on the workers, then those put off, then those in the queue. The completion of a
worker's request hands it the next one from the queue, so `reset` is right only when no request waits at the
call. Then it cancels every request that is running and nothing else, as long as the requests that callbacks
submit meanwhile start on workers that it has passed.
-/

namespace UniEvent.Resolver

open Program Program.Exec

variable {s t : State} {h : Hooks} {base : List Event} {req : Req} {k : ℕ}

/-- The events cancel these requests, in this order and before anything else happens to them. -/
structure Purges (old : List Req) (events : List Event) : Prop where
  canceled : canceled events = old
  first : ∀ req ∈ old, (results req events).head? = some (.failed .canceled)

theorem Purges.append {old old' : List Req} {events events' : List Event} (first : Purges old events)
    (second : Purges old' events') (apart : ∀ req ∈ old', results req events = []) :
    Purges (old ++ old') (events' ++ events) := by
  constructor
  · rw [canceled_append, first.canceled, second.canceled]
  · intro req member
    rw [results_append]
    rcases List.mem_append.mp member with here | there
    · rw [List.head?_append, first.first req here]
      rfl
    · rw [apart req there, List.nil_append]
      exact second.first req there

/-- The requests of some workers. -/
def requestsFrom (w n : ℕ) (s : State) : List Req := (List.range' w n).filterMap fun j => (s.workers j).request

private theorem requestsFrom_succ (w n : ℕ) (s : State) :
    requestsFrom w (n + 1) s = (s.workers w).request.toList ++ requestsFrom (w + 1) n s := by
  rw [requestsFrom, List.range'_succ, List.filterMap_cons]
  cases (s.workers w).request with
  | none => rfl
  | some req => rfl

theorem mem_requestsFrom {w n : ℕ} (member : req ∈ requestsFrom w n s) :
    ∃ j, w ≤ j ∧ (s.workers j).request = some req := by
  obtain ⟨j, range, slot⟩ := List.mem_filterMap.mp member
  exact ⟨j, (List.mem_range'_1.mp range).1, slot⟩

private theorem requestsFrom_congr {w n : ℕ} (same : ∀ j, w ≤ j → (t.workers j).request = (s.workers j).request) :
    requestsFrom w n t = requestsFrom w n s :=
  List.filterMap_congr fun j range => same j (List.mem_range'_1.mp range).1

/-! ### One request -/

/-- The state in which `on_resolve` of a canceled request is called. -/
abbrev purged (req : Req) (s : State) : State := s.retire req (.failed .canceled)

private theorem cancel_calm (calms : h.Calms k) (running : (s.requests req).running = true)
    (ready : Ready base (purged req s))
    (behind : ∀ w, (s.requests req).worker = some w → ∀ i ∈ visiting (purged req s).trace, w ≤ i)
    (short : weight (purged req s) + 2 < k) : wp (cancel h req .canceled) (Calm base (purged req s)) s := by
  simp only [cancel, finishResolve]
  rw [wp_get_bind, if_pos running, wp_modify_bind]
  exact completed_calm calms _ ready (retire_freed _) behind short

/-- A request is canceled, and what follows is mild. -/
theorem purges_one (mild : Mild (purged req s) t) : ∃ events, t.trace = events ++ s.trace ∧
    Purges [req] events ∧ visiting t.trace = visiting s.trace ∧
      ∀ r, r ≠ req → Ahead (purged req s) r → results r events = [] := by
  obtain ⟨key, stores, trace, calm⟩ := retire_events req (.failed .canceled) s
  obtain ⟨events, trace', none, quiet⟩ := mild.trace
  refine ⟨events ++ .callback req key (.failed .canceled) (s.requests req).worker :: stores, ?_, ⟨?_, ?_⟩, ?_, ?_⟩
  · rw [trace', trace]
    simp
  · rw [canceled_append, none, canceled_callback calm]
    rfl
  · intro r member
    obtain rfl := List.mem_singleton.mp member
    rw [results_append, results_callback calm, if_pos rfl]
    rfl
  · rw [mild.place, trace]
    exact visiting_callback calm
  · intro r other ahead
    rw [results_append, results_callback calm, if_neg (Ne.symm other), quiet r ahead]
    rfl

private theorem purged_step (running : (s.requests req).running = true) : Step s (purged req s) :=
  .finish s req _ running (.canceled .canceled)

/-! ### The workers -/

/-- The requests `old` were canceled while `reset` went through the workers. -/
structure Swept (old : List Req) (s t : State) : Prop where
  submits : Submits t.script
  lighter : weight t ≤ weight s
  place : visiting t.trace = none
  cached : s.cacheDelayed <+: t.cacheDelayed
  trace : ∃ events, t.trace = events ++ s.trace ∧ Purges old events ∧ ∀ req ∈ s.cacheDelayed, results req events = []

/-- The request of a worker leaves that worker only. -/
theorem purged_worker (placed : Placed s) {w : ℕ} (slot : (s.workers w).request = some req) :
    (purged req s).size = s.size ∧ (purged req s).cacheDelayed = s.cacheDelayed ∧ weight (purged req s) = weight s ∧
      ∀ j, j ≠ w → ((purged req s).workers j).request = (s.workers j).request := by
  obtain ⟨running, worker⟩ := placed.slot w req slot
  have retired := placed.retired (.failed .canceled) running
  refine ⟨retired.size, ?_, ?_, fun j other => ?_⟩
  · rw [retired.cacheDelayed, worker]
    exact if_neg fun both => nomatch both.1
  · rw [weight, weight, retire_script, retired.queue, worker]
    rw [if_neg fun both => nomatch both.1]
  · rw [retired.slots, worker, if_neg fun same => other (Option.some.inj same).symm]

/-- One worker that has a request. -/
theorem sweep_one {k w : ℕ} (calms : h.Calms k) (older : base <:+ s.trace) (sound : Sound s)
    (submits : Submits s.script) (place : visiting s.trace = some w) (bound : w < s.size) (short : weight s + 2 < k)
    (good : Good base s) (slot : (s.workers w).request = some req) : wp (cancel h req .canceled)
      (Surely base s fun o t => o = .done () ∧ Submits t.script ∧ weight t ≤ weight s ∧ t.size = s.size ∧
        s.cacheDelayed <+: t.cacheDelayed ∧ (∀ j, w < j → (t.workers j).request = (s.workers j).request) ∧
        ∃ events, t.trace = events ++ s.trace ∧ Purges [req] events ∧
          ∀ r, r ∈ s.cacheDelayed ∨ (∃ j, w < j ∧ (s.workers j).request = some r) → results r events = []) s := by
  have placed := sound.placed good.1
  obtain ⟨running, worker⟩ := placed.slot w req slot
  obtain ⟨size, cached, equal, slots⟩ := purged_worker placed slot
  have step := purged_step running
  obtain ⟨key, stores, trace, calm⟩ := retire_events req (.failed .canceled) s
  have place' : visiting (purged req s).trace = some w := by
    rw [trace]
    exact (visiting_callback calm).trans place
  have ready : Ready base (purged req s) := by
    refine ⟨older.trans step.older, step.sound sound, ?_, fun i at' => ?_⟩
    · rw [retire_script]
      exact submits
    · rw [place'] at at'
      rw [size, ← Option.some.inj at']
      exact bound
  have behind : ∀ w', (s.requests req).worker = some w' → ∀ i ∈ visiting (purged req s).trace, w' ≤ i := by
    intro w' names i at'
    rw [place'] at at'
    rw [← Option.some.inj at', Option.some.inj (names.symm.trans worker)]
  refine wp_mono (cancel_calm calms running ready behind (equal ▸ short)) ?_
  rintro o t ⟨path, rest⟩
  refine ⟨.head step path, fun good' => ?_⟩
  obtain ⟨done, ready', mild, lighter⟩ := rest good'
  obtain ⟨events, trace', purges, _, apart⟩ := purges_one mild
  obtain ⟨size', slots'⟩ := mild.above w place'
  refine ⟨done, ready'.submits, equal ▸ lighter, size'.trans size, cached ▸ mild.cached,
    fun j above => (slots' j above).trans (slots j above.ne'), events, trace', purges, fun r ahead => ?_⟩
  rcases ahead with postponed | ⟨j, above, slot'⟩
  · refine apart r (fun same => ?_) (.inl (cached ▸ postponed))
    have none := (placed.postponed r postponed).2.2.1
    rw [same, worker] at none
    cases none
  · refine apart r (fun same => ?_) (.inr ⟨w, place', j, above, (slots j above.ne').trans slot'⟩)
    have other := (placed.slot j r slot').2
    rw [same, worker] at other
    exact above.ne (Option.some.inj other)

/-- A step to the next worker, after which others follow. -/
theorem Swept.cons {m : State} {now old : List Req} (rest : Swept old m t)
    (lighter : weight m ≤ weight s) (cached : s.cacheDelayed <+: m.cacheDelayed) {events : List Event}
    (trace : m.trace = events ++ s.trace) (purges : Purges now events)
    (apart : ∀ req, req ∈ s.cacheDelayed ∨ req ∈ old → results req events = []) : Swept (now ++ old) s t := by
  obtain ⟨events', trace', purges', quiet⟩ := rest.trace
  refine ⟨rest.submits, rest.lighter.trans lighter, rest.place, cached.trans rest.cached, events' ++ events, ?_, ?_, ?_⟩
  · rw [trace', trace, List.append_assoc]
  · exact purges.append purges' fun req member => apart req (.inr member)
  · intro req member
    rw [results_append, apart req (.inl member), quiet req (cached.subset member)]
    rfl

private theorem cancelWorkers_swept (calms : h.Calms k) (n : ℕ) : ∀ w (s : State), base <:+ s.trace → Sound s →
    Submits s.script → w + n = s.size → weight s + 2 < k → wp (cancelWorkers h w n)
      (Surely base s fun o t => o = .done () ∧ Swept (requestsFrom w n s) s t) s := by
  induction n with
  | zero =>
    intro w s _ _ submits _ _
    refine ⟨.single (.visited s), fun _ => ⟨rfl, submits, le_rfl, rfl, List.prefix_refl _, [.visited], rfl, ?_, ?_⟩⟩
    · exact ⟨rfl, (by rintro _ ⟨⟩)⟩
    · exact fun _ _ => rfl
  | succ n ih =>
    intro w s older sound submits size short
    simp only [cancelWorkers]
    rw [wp_modify_bind, wp_get_bind, requestsFrom_succ]
    let m := s.log (.visit w)
    have step : Step s m := .visit s w
    have older' := older.trans step.older
    have sound' := step.sound sound
    have visit : Purges [] [.visit w] := ⟨rfl, (by rintro _ ⟨⟩)⟩
    have visited {old : List Req} {u : State} (rest : Swept old m u) : Swept old s u :=
      Swept.cons (s := s) rest le_rfl (List.prefix_refl _) rfl visit fun _ _ => rfl
    cases slot : (s.workers w).request with
    | none =>
      have slot' : ((s.log (.visit w)).workers w).request = none := slot
      rw [slot']
      refine wp_mono (ih (w + 1) m older' sound' submits (by change w + 1 + n = s.size; omega) short) ?_
      rintro o t ⟨path, rest⟩
      refine ⟨.head step path, fun good => ?_⟩
      obtain ⟨done, swept⟩ := rest good
      exact ⟨done, visited swept⟩
    | some req =>
      have slot' : ((s.log (.visit w)).workers w).request = some req := slot
      rw [slot']
      have path : Steps Step (do cancel h req .canceled; cancelWorkers h (w + 1) n) :=
        .bind (cancel_reached calms.ok _ _) fun _ => cancelWorkers_reached calms.ok n (w + 1)
      change wp (do cancel h req .canceled; cancelWorkers h (w + 1) n) _ m
      by_cases good : Good base m
      · have one := sweep_one calms older' sound' submits rfl (by change w < s.size; omega) short good slot
        refine wp_mono (surely_seq one (cancelWorkers_reached calms.ok n (w + 1)) ?_)
          fun o u holds => ⟨.head step holds.1, holds.2⟩
        rintro t later ⟨submits', lighter, size', cached, slots, events, trace, purges, apart⟩
        have bound : w + 1 + n = t.size := by
          rw [size']
          change w + 1 + n = s.size
          omega
        have same : requestsFrom (w + 1) n t = requestsFrom (w + 1) n s :=
          requestsFrom_congr fun j above => slots j above
        refine surely_mono (ih (w + 1) t (older'.trans (path_older later)) (sound'.along later) submits' bound
          (by change weight t ≤ weight s at lighter; omega)) ?_
        rintro o u ⟨done, swept⟩
        have both : Swept ([req] ++ requestsFrom (w + 1) n t) m u := by
          refine swept.cons lighter cached trace purges fun r ahead => apart r (ahead.imp_right fun member => ?_)
          obtain ⟨j, above, slot''⟩ := mem_requestsFrom member
          exact ⟨j, above, (slots j above).symm.trans slot''⟩
        rw [same] at both
        exact ⟨done, visited both⟩
      · exact surely_of_bad good (.single step) (path m)

/-! ### The requests that are put off -/

/-- The first of the requests that are put off. -/
theorem purge_one (calms : h.Calms k) {rest : List Req} (older : base <:+ s.trace) (sound : Sound s)
    (submits : Submits s.script) (place : visiting s.trace = none) (short : weight s + 2 < k) (good : Good base s)
    (front : s.cacheDelayed = req :: rest) : wp (cancel h req .canceled)
      (Surely base s fun o t => o = .done () ∧ Submits t.script ∧ weight t ≤ weight s ∧
        visiting t.trace = none ∧ rest <+: t.cacheDelayed ∧ ∃ events, t.trace = events ++ s.trace ∧
          Purges [req] events ∧
          ∀ r ∈ rest, results r events = []) s := by
  have placed := sound.placed good.1
  obtain ⟨running, queued, worker, _⟩ := placed.postponed req (front ▸ List.mem_cons_self)
  have retired := placed.retired (.failed .canceled) running
  have fresh : req ∉ rest := (List.nodup_cons.mp (front ▸ placed.cachedNodup)).1
  have cached : (purged req s).cacheDelayed = rest := by
    rw [retired.cacheDelayed, if_pos ⟨worker, queued⟩, front, List.erase_cons_head]
  have equal : weight (purged req s) = weight s := by
    rw [weight, weight, retire_script, retired.queue, if_neg]
    rw [queued]
    rintro ⟨-, ⟨⟩⟩
  have step := purged_step running
  obtain ⟨key, stores, trace, calm⟩ := retire_events req (.failed .canceled) s
  have place' : visiting (purged req s).trace = none := by
    rw [trace]
    exact (visiting_callback calm).trans place
  have ready : Ready base (purged req s) := by
    refine ⟨older.trans step.older, step.sound sound, ?_, fun i at' => ?_⟩
    · rw [retire_script]
      exact submits
    · rw [place'] at at'
      cases at'
  have behind : ∀ w, (s.requests req).worker = some w → ∀ i ∈ visiting (purged req s).trace, w ≤ i := by
    rw [worker]
    rintro w ⟨⟩
  refine wp_mono (cancel_calm calms running ready behind (equal ▸ short)) ?_
  rintro o t ⟨path, calm'⟩
  refine ⟨.head step path, fun good' => ?_⟩
  obtain ⟨done, ready', mild, lighter⟩ := calm' good'
  obtain ⟨events, trace', purges, _, apart⟩ := purges_one mild
  refine ⟨done, ready'.submits, equal ▸ lighter, mild.place.trans place', cached ▸ mild.cached, events,
    trace', purges, ?_⟩
  intro r member
  exact apart r (fun same => fresh (same ▸ member)) (.inl (cached ▸ member))

private theorem cancelUpTo_purges (calms : h.Calms k) (last : Req) (old : List Req) : ∀ (budget : ℕ) (s : State),
    old.getLast? = some last → old.length ≤ budget → old <+: s.cacheDelayed → base <:+ s.trace → Sound s →
    Submits s.script → visiting s.trace = none → weight s + 2 < k → wp (cancelUpTo h State.cacheDelayed last budget)
      (Surely base s fun o t => o = .done () ∧ ∃ events, t.trace = events ++ s.trace ∧ Purges old events) s := by
  induction old with
  | nil => exact fun _ _ none => nomatch none
  | cons x rest ih =>
    intro budget s ends enough start older sound submits place short
    by_cases good : Good base s
    · obtain ⟨after, list⟩ := start
      have front : s.cacheDelayed = x :: (rest ++ after) := list.symm
      have fresh : x ∉ rest := by
        have nodup := (sound.placed good.1).cachedNodup
        rw [front, List.nodup_cons, List.mem_append] at nodup
        exact fun member => nodup.1 (.inl member)
      cases budget with
      | zero => cases enough
      | succ budget =>
        simp only [cancelUpTo]
        rw [wp_get_bind, front]
        have one := purge_one calms older sound submits place short good front
        cases rest with
        | nil =>
          obtain rfl : x = last := Option.some.inj ends
          dsimp only
          rw [if_pos rfl]
          refine surely_mono one ?_
          rintro o t ⟨done, _, _, _, _, events, trace, purges, _⟩
          exact ⟨done, events, trace, purges⟩
        | cons y ys =>
          have ends' : (y :: ys).getLast? = some last := (List.getLast?_cons_cons).symm.trans ends
          have other : x ≠ last := fun same => fresh (same ▸ List.mem_of_getLast? ends')
          dsimp only
          rw [if_neg other]
          refine surely_seq one (cancelUpTo_reached calms.ok State.cacheDelayed last budget) ?_
          rintro t later ⟨submits', lighter, place', cached, events, trace, purges, apart⟩
          have start' : y :: ys <+: t.cacheDelayed := (List.prefix_append _ _).trans cached
          refine surely_mono (ih budget t ends' (Nat.le_of_succ_le_succ enough) start' (older.trans (path_older later))
            (sound.along later) submits' place' (by omega)) ?_
          rintro o u ⟨done, events', trace', purges'⟩
          refine ⟨done, events' ++ events, ?_, purges.append purges' fun r member => ?_⟩
          · rw [trace', trace, List.append_assoc]
          · exact apart r (List.mem_append_left _ member)
    · exact surely_of_bad good .refl (cancelUpTo_reached calms.ok State.cacheDelayed last budget s)

private theorem cancelList_purges (calms : h.Calms k) {old : List Req} (enough : old.length ≤ h.budget)
    (start : old <+: s.cacheDelayed) (older : base <:+ s.trace) (sound : Sound s) (submits : Submits s.script)
    (place : visiting s.trace = none) (short : weight s + 2 < k) : wp (cancelList h State.cacheDelayed old.getLast?)
      (Surely base s fun o t => o = .done () ∧ ∃ events, t.trace = events ++ s.trace ∧ Purges old events) s := by
  cases ends : old.getLast? with
  | none =>
    obtain rfl := List.getLast?_eq_none_iff.mp ends
    exact ⟨.refl, fun _ => ⟨rfl, [], rfl, rfl, nofun⟩⟩
  | some last => exact cancelUpTo_purges calms last old _ s ends enough start older sound submits place short

/-! ### The whole call -/

private theorem reset_purges (calms : h.Calms k) (sound : Sound s) (submits : Submits s.script) (empty : s.queue = [])
    (short : s.script.length + 2 < k) (enough : s.cacheDelayed.length ≤ h.budget) : wp (reset h)
      (Surely s.trace s fun o t => o = .done () ∧
        ∃ events, t.trace = events ++ s.trace ∧ Purges (requestsFrom 0 s.size s ++ s.cacheDelayed) events) s := by
  simp only [reset]
  rw [wp_modify_bind, wp_get_bind]
  let m : State := { s with dnsRollTimer := false }
  have step : Step s m := frame_rollTimer s false
  have light : weight m = s.script.length := by simp [weight, m, empty]
  have none : cancelList h State.queue m.queue.getLast? = pure () := by
    change cancelList h State.queue s.queue.getLast? = pure ()
    rw [empty]
    rfl
  change wp (do
    cancelWorkers h 0 m.size
    cancelList h State.cacheDelayed m.cacheDelayed.getLast?
    cancelList h State.queue m.queue.getLast?) _ m
  rw [none]
  have swept := cancelWorkers_swept calms m.size 0 m step.older (step.sound sound) submits (Nat.zero_add _) (by omega)
  refine wp_mono (surely_seq swept (.bind (cancelList_reached calms.ok _ _) fun _ => .pure ()) ?_)
    fun o t holds => ⟨.head step holds.1, holds.2⟩
  rintro t later swept
  have put := cancelList_purges calms enough swept.cached (step.older.trans (path_older later))
    ((step.sound sound).along later) swept.submits swept.place (by have := swept.lighter; omega)
  refine surely_seq put (.pure ()) ?_
  rintro u _ ⟨events', trace', purges'⟩
  obtain ⟨events, trace, purges, apart⟩ := swept.trace
  rw [wp_pure]
  refine ⟨.refl, fun _ => ⟨rfl, events' ++ events, ?_, purges.append purges' apart⟩⟩
  rw [trace', trace, List.append_assoc]

/-- What has become of the requests when `reset` returns, and what happened in between. -/
structure Resets (s t : State) (events : List Event) : Prop where
  trace : t.trace = events ++ s.trace
  canceled : ∀ req, (canceled events).count req = if (s.requests req).running = true then 1 else 0
  first : ∀ req, (s.requests req).running = true → (results req events).head? = some (.failed .canceled)
  once : ∀ req, (s.requests req).running = true → .submit req ∉ events →
    results req events = [.failed .canceled] ∧ (t.requests req).running = false

private theorem requestsFrom_nodup (placed : Placed s) (w n : ℕ) : (requestsFrom w n s).Nodup := by
  refine List.Nodup.filterMap (fun i j req slot slot' => ?_) List.nodup_range'
  have worker := (placed.slot i req slot).2
  rw [(placed.slot j req slot').2] at worker
  exact (Option.some.inj worker).symm

/-- With nobody waiting, what runs is on a worker or put off. -/
theorem running_iff (placed : Placed s) (bounded : Bounded s) (empty : s.queue = []) (req : Req) :
    (s.requests req).running = true ↔ req ∈ requestsFrom 0 s.size s ++ s.cacheDelayed := by
  rw [List.mem_append]
  constructor
  · intro running
    rcases (placed.held req running).resolve_left nofun with ⟨w, slot⟩ | waiting | postponed
    · refine .inl (List.mem_filterMap.mpr ⟨w, List.mem_range'_1.mpr ⟨Nat.zero_le _, ?_⟩, slot⟩)
      rw [Nat.zero_add]
      exact bounded.slot w req slot
    · rw [empty] at waiting
      cases waiting
    · exact .inr postponed
  · rintro (member | member)
    · obtain ⟨w, _, slot⟩ := mem_requestsFrom member
      exact (placed.slot w req slot).1
    · exact (placed.postponed req member).1

private theorem inFlight_nodup (placed : Placed s) : (requestsFrom 0 s.size s ++ s.cacheDelayed).Nodup := by
  refine List.nodup_append'.mpr ⟨requestsFrom_nodup placed _ _, placed.cachedNodup, fun req member postponed => ?_⟩
  obtain ⟨w, _, slot⟩ := mem_requestsFrom member
  have worker := (placed.slot w req slot).2
  rw [(placed.postponed req postponed).2.2.1] at worker
  cases worker

private theorem results_cons (req : Req) (e : Event) (events : List Event) :
    results req (e :: events) = results req events ++ (e.result? req).toList := by
  rw [results, List.reverse_cons, List.filterMap_append]
  cases result : e.result? req with
  | none => simp [result, results]
  | some res => simp [result, results]

private theorem outstanding_other {e : Event} (result : e.result? req = none) (other : e ≠ .submit req)
    (before : List Event) : outstanding req (e :: before) = outstanding req before := by
  cases e with
  | submit r =>
    apply if_neg
    rintro rfl
    exact other rfl
  | callback r key res worker =>
    apply if_neg
    intro same
    rw [Event.result?, if_pos same] at result
    cases result
  | _ => rfl

private theorem outstanding_result {e : Event} {res : Result} (result : e.result? req = some res)
    (before : List Event) :
    outstanding req (e :: before) = false ∧ (OnceAt e before → outstanding req before = true) := by
  cases e with
  | callback r key res' worker =>
    rw [Event.result?] at result
    split at result
    · rename_i same
      subst same
      exact ⟨if_pos rfl, id⟩
    · cases result
  | _ => cases result

/-- Without a new submission a request has one callback at most, and does not run after it. -/
theorem results_once {before : List Event} (events : List Event) (once : Along OnceAt (events ++ before))
    (none : .submit req ∉ events) : results req events = [] ∨
      (∃ res, results req events = [res]) ∧ outstanding req (events ++ before) = false := by
  induction events with
  | nil => exact .inl rfl
  | cons e events ih =>
    have rest := ih once.2 fun member => none (List.mem_cons_of_mem _ member)
    rw [results_cons, List.cons_append]
    cases result : e.result? req with
    | none =>
      rw [outstanding_other result fun same => none (same ▸ List.mem_cons_self), Option.toList_none, List.append_nil]
      exact rest
    | some res =>
      obtain ⟨ended, pending⟩ := outstanding_result result (events ++ before)
      rw [pending once.1] at rest
      rw [rest.resolve_right fun both => nomatch both.2]
      exact .inr ⟨⟨res, rfl⟩, ended⟩

/-- `reset` comes back and has canceled what was running and nothing else, when nobody waits for a worker, the
callbacks submit requests only, and these start on workers that `reset` has passed. -/
theorem reset_exact (cfg : Config) (ts : List Turn) (script : List Act) (replies : List Reply) (n : ℕ)
    (submits : Submits script) (empty : (run ts (initial cfg)).2.queue = [])
    (deep : script.length + (run ts (initial cfg)).2.cacheDelayed.length + 3 ≤ n) :
    let s : State := { (run ts (initial cfg)).2 with script := script, replies := replies }
    wp (reset (members n)) (fun o t => Clean t → Along (BehindSince s.trace) t.trace →
      o = .done () ∧ ∃ events, Resets s t events) s := by
  intro s
  have step : Step (run ts (initial cfg)).2 s := .frame _ _ _ _ _ _ _
  have sound : Sound s := step.sound (run_sound cfg ts)
  have deep' : s.cacheDelayed.length ≤ (members n).budget := by
    have budget := (members_calms n).budget
    change (run ts (initial cfg)).2.cacheDelayed.length ≤ _
    omega
  refine wp_mono (reset_purges (members_calms n) sound submits empty (by change script.length + 2 < n; omega) deep') ?_
  rintro o t ⟨path, rest⟩ clean behind
  obtain ⟨done, events, trace, purges⟩ := rest ⟨clean, behind⟩
  have placed := sound.placed (clean.earlier (path_older path))
  have inFlight := running_iff placed sound.bounded empty
  have outstanding : Outstanding t := Relation.ReflTransGen.head_induction_on path
    (motive := fun u _ => Outstanding u → Outstanding t) id (fun next _ ih holds => ih (next.outstanding holds))
    (step.outstanding (run_outstanding cfg ts))
  refine ⟨done, events, trace, fun req => ?_, fun req running => ?_, fun req running none => ?_⟩
  · rw [purges.canceled, (inFlight_nodup placed).count]
    simp only [inFlight]
  · exact purges.first req ((inFlight req).mp running)
  · have first := purges.first req ((inFlight req).mp running)
    rcases results_once events (trace ▸ outstanding.once) none with empty | ⟨⟨res, one⟩, ended⟩
    · rw [empty] at first
      cases first
    · rw [one] at first ⊢
      rw [outstanding.running, trace]
      exact ⟨by rw [Option.some.inj first], ended⟩

/-- Two workers are busy and one request is put off. -/
def busyTurns : List Turn :=
  [⟨3, [], [], .op (.submit 0 ⟨['a'], [], 0, {}, true, 0⟩)⟩,
    ⟨3, [], [], .answer 0 0 (.ok ⟨1, 60⟩)⟩,
    ⟨3, [], [], .op (.submit 1 ⟨['b'], [], 0, {}, true, 0⟩)⟩,
    ⟨3, [], [], .op (.submit 2 ⟨['c'], [], 0, {}, true, 0⟩)⟩,
    ⟨3, [], [], .op (.submit 3 ⟨['a'], [], 0, {}, true, 0⟩)⟩]

/-- The first callback submits a request. -/
def resubmitting : List Act := [.op (.submit 4 ⟨['d'], [], 0, {}, true, 0⟩)]

theorem busyTurns_reset :
    let s : State := { (run busyTurns (initial {})).2 with script := resubmitting, replies := [] }
    let t := (reset (members 5) s).2
    (s.requests 1).running = true ∧ (s.requests 2).running = true ∧ (s.requests 3).running = true ∧
      (t.requests 4).running = true ∧ ∃ events, Resets s t events :=
  ⟨by decide, by decide, by decide, by decide,
    (reset_exact {} busyTurns resubmitting [] 5 (by decide) (by decide) (by decide) (by decide) (by decide)).2⟩

/-- A request waits for the only worker. -/
def queuedTurns : List Turn :=
  [⟨3, [], [], .op (.submit 0 ⟨['a'], [], 0, {}, true, 0⟩)⟩,
    ⟨3, [], [], .op (.submit 1 ⟨['b'], [], 0, {}, true, 0⟩)⟩]

/-- The request that waited has got the worker, was not canceled, and `reset` looks at the front of an
empty queue. -/
theorem queuedTurns_reset :
    let s := (run queuedTurns (initial { workers := 1 })).2
    let r := reset (members 9) s
    (s.requests 1).running = true ∧ r.1 = .halt .aborted ∧ r.2.queue = [] ∧ (r.2.requests 1).running = true ∧
      1 ∉ canceled r.2.trace := by
  decide

end UniEvent.Resolver
