import UniEvent.Proofs.StreamEnds
import UniEvent.Proofs.StreamHeld
import UniEvent.Proofs.StreamTimeout

/-! # Canceling the requests before a shutdown

`Waiting` describes the queue while requests before the shutdown are still there. Canceling the front one reports it and
takes it out, unless an exception leaves its `on_establish`. A callback that calls `reset()` cancels the rest of the
queue, the shutdown included, which is then reported as timed out because of its flag.
-/

namespace UniEvent.Stream.Timeout

open Program Program.Exec

/-- Where the call is: the requests still before the shutdown, the locks held, the cancel mark, and whether `reset()` or
`clear()` has been called. -/
structure Stage where
  left : List Req
  locked : ℕ
  mark : Option Req
  called : Prop

/-- The events so far: `gone` were reported and nothing else of the queue was touched. -/
structure Record (c : Course) (gone : List Req) (called : Prop) (events : List (Event Req Fn Note)) : Prop where
  told : reports c.targets events = canceledReports gone
  completed : dones events = gone.reverse
  orderly : Along (LeavesCompleted c.pre) events
  untouched : ∀ e ∈ events, ¬ Touches c.post e
  called : called → 0 < resets events

structure Waiting (c : Course) (g : Stage) (s : State) : Prop where
  record : ∃ gone events, c.pre = gone ++ g.left ∧ s.trace = events ++ c.base ∧ Record c gone g.called events
  queue : ∃ new, s.requests = g.left ++ c.late :: (c.post ++ new)
  nodup : s.requests.Nodup
  async : ∀ req ∈ g.left ++ [c.late], s.async req = true
  parked : ∀ req ∈ c.targets, req ∉ s.finalizedRequests
  locked : s.locked = g.locked
  recursion : s.resumeRecursion = c.recursion
  flag : s.owner.timedOut c.late = true
  gen : s.cancelGen = c.gen
  mark : s.cancelTill = g.mark

variable {c : Course} {g : Stage} {s t : State} {h : Members} {left : List Req} {req : Req}
  {events : List (Event Req Fn Note)}

/-- An event that reports and completes nothing and touches nothing. -/
structure Calm (c : Course) (e : Event Req Fn Note) : Prop where
  told : ∀ report ∈ reported? e, report.1 ∉ c.targets
  done : e.done? = none
  left : ∀ req, e ≠ .own (.connectLeft req)
  untouched : ¬ Touches c.post e

theorem Record.calm {gone : List Req} {called : Prop} {e : Event Req Fn Note} (record : Record c gone called events)
    (calm : Calm c e) : Record c gone called (e :: events) where
  told := by
    rw [← record.told, reports, reports, List.filterMap_cons]
    cases told : reported? e with
    | none => rfl
    | some report => exact List.filter_cons_of_neg (by simpa using calm.told report told)
  completed := by
    rw [← record.completed, dones, dones, List.filterMap_cons, calm.done]
  orderly := by
    refine ⟨?_, record.orderly⟩
    cases e with
    | own note =>
      cases note with
      | connectLeft req => exact absurd rfl (calm.left req)
      | _ => trivial
    | _ => trivial
  untouched e' member := by
    rcases List.mem_cons.mp member with rfl | old
    · exact calm.untouched
    · exact record.untouched e' old
  called holds := by
    have before := record.called holds
    rw [resets, List.countP_cons]
    exact Nat.lt_of_lt_of_le before (Nat.le_add_right _ _)

theorem logged_trace {base events : List (Event Req Fn Note)} (e : Event Req Fn Note)
    (trace : s.trace = events ++ base) : (s.log e).trace = e :: events ++ base := congrArg (e :: ·) trace

theorem Waiting.log (waiting : Waiting c g s) {e : Event Req Fn Note} (calm : Calm c e) : Waiting c g (s.log e) := by
  obtain ⟨gone, events, pre, trace, record⟩ := waiting.record
  exact { waiting with record := ⟨gone, e :: events, pre, logged_trace e trace, record.calm calm⟩ }

theorem Calm.own (note : Note) (left : ∀ req, note ≠ .connectLeft req) : Calm c (.own note) :=
  ⟨nofun, rfl, fun req same => left req (Event.own.inj same), id⟩

theorem Waiting.late_mem (waiting : Waiting c g s) : c.late ∈ s.requests := by
  obtain ⟨new, queue⟩ := waiting.queue
  rw [queue]
  exact List.mem_append_right _ List.mem_cons_self

theorem Waiting.left_mem (waiting : Waiting c g s) (member : req ∈ g.left ++ [c.late]) : req ∈ s.requests := by
  obtain ⟨new, queue⟩ := waiting.queue
  rw [queue]
  rcases List.mem_append.mp member with left | late
  · exact List.mem_append_left _ left
  · rw [List.mem_singleton.mp late]
    exact List.mem_append_right _ List.mem_cons_self

theorem Waiting.guarded (g : Stage) (held : 0 < g.locked) : Guarded c (Waiting c g) where
  locked waiting := by rw [waiting.locked]; exact held
  owner owner waiting same := { waiting with flag := by rw [same]; exact waiting.flag }
  log note waiting left := waiting.log (.own note left)
  push {s} req owner waiting unlinked flag := by
    have different {other : Req} (member : other ∈ g.left ++ [c.late]) : other ≠ req :=
      fun same => unlinked.1 (same ▸ waiting.left_mem member)
    have notLate : req ≠ c.late := (different (List.mem_append_right _ List.mem_cons_self)).symm
    have pushed : Waiting c g (s.log (.push req)) := waiting.log ⟨nofun, rfl, nofun, id⟩
    obtain ⟨new, queue⟩ := waiting.queue
    refine { waiting with
      record := pushed.record, queue := ⟨new ++ [req], ?_⟩, nodup := ?_,
      async := fun other member => ?_, flag := ?_ }
    · change s.requests ++ [req] = _
      rw [queue]
      simp only [List.append_assoc, List.cons_append]
    · exact List.nodup_append.mpr ⟨waiting.nodup, by simp,
        fun a member b last same => unlinked.1 (List.mem_singleton.mp last ▸ same ▸ member)⟩
    · exact (Function.update_of_ne (different member) ..).trans
        ((Function.update_of_ne (different member) ..).trans (waiting.async other member))
    · exact (flag notLate).trans waiting.flag

/-! ### The front request is completed -/

/-- `done` runs the closure of a request at once. -/
theorem wp_done_finish {f : Fn} {Q : Outcome Unit → State → Prop} (atFront : s.requests.head? = some req)
    (shallow : s.resumeRecursion ≤ Queue.SPLIT_RECURSION) (async : s.async req = true)
    (body : wp (scopeGuard (h.call f) (Queue.release h)) Q (finishing s req f)) : wp (Queue.done h req f) Q s := by
  simp only [Queue.done, wp_bind, wp_modify, wp_get, next_done, wp_assert]
  refine ⟨fun _ => ?_, fun other => absurd atFront other⟩
  simp only [next_done, Queue.complete, wp_bind, wp_get]
  split
  · rename_i deep
    exact absurd deep (Nat.not_lt.mpr shallow)
  · split
    · exact body
    · rename_i notAsync
      exact absurd async notAsync

/-- The stage when the front request has left. -/
def Stage.next (g : Stage) (req : Req) (left : List Req) : Stage :=
  { g with left, mark := if g.mark = some req then none else g.mark }

private theorem reports_finish {targets parked : List Req} {err : Option Err} (target : req ∈ targets) :
    reports targets (.finish req (.notifyOn req err) parked :: events) = (req, err) :: reports targets events := by
  simp [reports, reported?, target]

/-- `done` reports the request as canceled. -/
theorem Record.finish {gone : List Req} {called : Prop} (requests parked : List Req)
    (record : Record c gone called events) (target : req ∈ c.targets) (behind : req ∉ c.post) :
    Record c (gone ++ [req]) called
      (.finish req (.notifyOn req (some .canceled)) parked :: .done req requests :: events) where
  told := by
    have before : reports c.targets (.done req requests :: events) = canceledReports gone := record.told
    rw [reports_finish target, before]
    simp [canceledReports]
  completed := by
    have before : dones (.finish req (.notifyOn req (some .canceled)) parked :: .done req requests :: events) =
      req :: dones events := rfl
    rw [before, record.completed]
    simp
  orderly := ⟨trivial, trivial, record.orderly⟩
  untouched e member := by
    rcases List.mem_cons.mp member with rfl | member
    · exact id
    · rcases List.mem_cons.mp member with rfl | old
      · exact behind
      · exact record.untouched e old
  called := record.called

theorem Waiting.finishing (waiting : Waiting c g s) (front : g.left = req :: left) :
    Waiting c { g.next req left with locked := g.locked + 1 } (finishing s req (.notifyOn req (some .canceled))) := by
  obtain ⟨gone, events, pre, trace, record⟩ := waiting.record
  obtain ⟨new, queue⟩ := waiting.queue
  rw [front] at pre queue
  have target : req ∈ c.targets := by simp [Course.targets, pre]
  have unique := waiting.nodup
  rw [queue, List.cons_append] at unique
  have behind : req ∉ c.post := fun member => (List.nodup_cons.mp unique).1 (by simp [member])
  have tail : s.requests.tail = left ++ c.late :: (c.post ++ new) := by rw [queue]; rfl
  refine ⟨⟨gone ++ [req], _, ?_, ?_, record.finish s.requests s.finalizedRequests target behind⟩, ⟨new, tail⟩, ?_,
    fun other member => ?_,
    waiting.parked, ?_, waiting.recursion, waiting.flag, waiting.gen, ?_⟩
  · simpa [Stage.next] using pre
  · exact congrArg (fun trace => Event.finish req (.notifyOn req (some .canceled)) s.finalizedRequests ::
      .done req s.requests :: trace) trace
  · change s.requests.tail.Nodup
    rw [tail]
    exact (List.nodup_cons.mp unique).2
  · refine waiting.async other ?_
    rw [front, List.cons_append]
    exact List.mem_cons_of_mem _ member
  · exact congrArg (· + 1) waiting.locked
  · change (if s.cancelTill = some req then none else s.cancelTill) = _
    rw [waiting.mark]
    rfl

/-- The guard of `done` gives the lock back; the queue is still locked. -/
theorem release_waiting (held : 0 < g.locked) (waiting : Waiting c { g with locked := g.locked + 1 } s) :
    wp (Queue.release h) (fun o t => o = .done () ∧ Waiting c g t) s := by
  have unlocked : s.locked - 1 = g.locked := by rw [waiting.locked]; exact Nat.add_sub_cancel ..
  have after : Waiting c g { s.unlock with resumeRecursion := s.resumeRecursion + 1 - 1 } :=
    { waiting with locked := unlocked }
  simp only [Queue.release, Queue.resume, wp_bind, wp_modify, wp_get, next_done]
  split
  · exact ⟨rfl, after⟩
  · rw [wp_when]
    refine ⟨fun free => ?_, fun _ => ⟨rfl, after⟩⟩
    have locked : s.locked - 1 = 0 := free
    omega

/-! ### The members -/

/-- What the members do while requests before the shutdown wait. `cancel` of the front one may leave it at the front,
with an exception of `on_establish`. -/
structure Abides (c : Course) (h : Members) : Prop where
  user : ∀ {g s}, 0 < g.locked → Waiting c g s → wp h.user (After c (Waiting c g)) s
  notify : ∀ {g s} req err, 0 < g.locked → Waiting c g s → wp (h.notify req err) (After c (Waiting c g)) s
  call : ∀ {g s} req err, 0 < g.locked → Waiting c g s → wp (h.call (.notifyOn req err)) (After c (Waiting c g)) s
  cancel : ∀ {g s req left mark}, 0 < g.locked → g.left = req :: left → g.mark = some mark → Waiting c g s →
    wp (h.cancel req .canceled) (fun o t => After c (Waiting c (g.next req left)) o t ∨
      o = .halt .thrown ∧ Broken c t ∧ t.requests.head? = some req) s
  last : ∀ {g s}, 0 < g.locked → g.left = [] → g.called → Waiting c g s →
    wp (h.cancel c.late .canceled) (After c fun _ => False) s

theorem Waiting.front (waiting : Waiting c g s) (front : g.left = req :: left) : s.requests.head? = some req := by
  obtain ⟨new, queue⟩ := waiting.queue
  rw [queue, front]
  rfl

theorem Waiting.head_mem (waiting : Waiting c g s) (head : s.requests.head? = some req) : req ∈ g.left ++ [c.late] := by
  obtain ⟨new, queue⟩ := waiting.queue
  rw [queue] at head
  cases front : g.left with
  | nil =>
    rw [front] at head
    exact List.mem_singleton.mpr (Option.some.inj head).symm
  | cons first left =>
    rw [front] at head
    rw [← Option.some.inj head]
    exact List.mem_cons_self

/-- An exception that leaves the `on_establish` of the front request leaves it too early. -/
theorem Waiting.broken (waiting : Waiting c g s) (front : g.left = req :: left) :
    Broken c (s.log (.own (.connectLeft req))) := by
  obtain ⟨gone, events, pre, trace, record⟩ := waiting.record
  refine ⟨.own (.connectLeft req) :: events, gone, g.left, logged_trace _ trace, pre, record.told, ?_⟩
  rintro ⟨early, _⟩
  rw [front] at pre
  have done : req ∈ dones events := early (by simp [pre])
  rw [record.completed, List.mem_reverse] at done
  have unique := c.unique
  rw [pre] at unique
  exact (List.nodup_append.mp unique).2.2 req done req List.mem_cons_self rfl

section Members
variable (abides : Abides c h) (keeping : Keeping c h) {mark : Req}
include abides keeping

private theorem done_waiting (held : 0 < g.locked) (front : g.left = req :: left) (waiting : Waiting c g s) :
    wp (Queue.done h req (.notifyOn req (some .canceled))) (After c (Waiting c (g.next req left))) s := by
  have shallow : s.resumeRecursion ≤ Queue.SPLIT_RECURSION := waiting.recursion ▸ c.shallow
  have async := waiting.async req (by rw [front]; exact List.mem_append_left _ List.mem_cons_self)
  refine wp_done_finish (waiting.front front) shallow async ?_
  refine wp_attempt_after (abides.call req _ (Nat.succ_pos _) (waiting.finishing front)) (fun failed t inner => ?_) ?_
  · rw [wp_bind]
    refine wp_mono (release_waiting (g := g.next req left) held inner) ?_
    rintro o u ⟨rfl, after⟩
    rw [next_done, wp_when]
    exact ⟨fun _ => .back rfl after, fun _ => .back trivial after⟩
  · intro failed t fulfilled
    have released : Keeps (Fulfilled c) (Queue.release h) t :=
      (release_persists (X := []) (fulfilled_closed c) keeping
        (fun n fulfilled => fulfilled.later [] rfl) fulfilled).keeps
    exact released.bind fun _ _ after => .when after fun _ => .halt after

private theorem flushFinalized_after (held : 0 < g.locked) (budget : ℕ) : ∀ s, Waiting c g s →
    wp (Queue.flushFinalized h budget) (After c (Waiting c g)) s := by
  induction budget with
  | zero => exact fun s _ => .exhausted
  | succ budget ih =>
    intro s waiting
    simp only [Queue.flushFinalized, wp_bind, wp_get, next_done]
    split
    · exact .back trivial waiting
    · rename_i cur rest parked
      have outside : cur ∉ c.targets :=
        fun target => waiting.parked cur target (by rw [parked]; exact List.mem_cons_self)
      have logged : Waiting c g (s.log (.notify cur .canceled)) := by
        refine waiting.log ⟨?_, rfl, (by rintro _ ⟨⟩), id⟩
        rintro report ⟨⟩
        exact outside
      have flushed : Waiting c g (s.flush cur .canceled) :=
        { waiting with
          record := logged.record,
          parked := fun req target member => waiting.parked req target (List.mem_of_mem_tail member) }
      refine wp_attempt_after (abides.notify cur .canceled held flushed) (fun failed t after => ?_)
        fun failed t fulfilled => ?_
      · refine wp_bind_after (ih t after) (fun _ => id) (fun _ _ after => .back trivial after) fun _ _ fulfilled =>
          .pure fulfilled
      · have rest := (flushFinalized_persists (X := []) (fulfilled_closed c) keeping budget t fulfilled).keeps
        exact rest.bind fun _ _ after => .pure after

/-- The loop of `cancel` behind the `cancel` of the request `cur`. -/
def cancelLater (h : Members) (budget : ℕ) (cur : Req) (kept : Bool) : Exec State Bool := do
  let s ← get
  assert (s.requests.head? ≠ some cur)
  if s.cancelTill ≠ none ∧ s.cancelTill ≠ some cur then do
    let later ← Queue.cancelRequests h budget
    pure (kept || later)
  else pure kept

omit abides in
private theorem cancelLater_keeps (budget : ℕ) (cur : Req) (kept : Bool) (fulfilled : Fulfilled c s) :
    Keeps (Fulfilled c) (cancelLater h budget cur kept) s := by
  refine .get (.asserted fulfilled fun _ => ?_)
  split
  · exact (cancelRequests_persists (X := []) (fulfilled_closed c) keeping budget s fulfilled).keeps.bind
      fun _ _ after => .pure after
  · exact .pure fulfilled

omit abides keeping in
/-- The mark has left, so the loop ends. -/
theorem cancelLater_last {budget : ℕ} {kept : Bool} (once : req ∉ left ++ [c.late]) (marked : g.mark = some req)
    (after : Waiting c (g.next req left) s) :
    wp (cancelLater h budget req kept) (After c (Waiting c ⟨left, g.locked, none, g.called⟩)) s := by
  have stops : (g.next req left).mark = none := if_pos marked
  have same : g.next req left = ⟨left, g.locked, none, g.called⟩ := by
    rw [← stops]
    rfl
  simp only [cancelLater, wp_bind, wp_get, next_done, wp_assert]
  refine ⟨fun _ => ?_, fun stuck => absurd (after.head_mem (not_not.mp stuck)) once⟩
  rw [after.mark, stops, if_neg (by simp)]
  exact .back trivial (same ▸ after)

omit abides keeping in
/-- The mark is behind, so the loop goes on. -/
theorem cancelLater_more {W : State → Prop} {budget : ℕ} {req mark : Req} {kept : Bool} (once : req ∉ left ++ [c.late])
    (marked : g.mark = some mark) (other : mark ≠ req) (after : Waiting c (g.next req left) s)
    (loop : (g.next req left).mark = some mark → wp (Queue.cancelRequests h budget) (After c W) s) :
    wp (cancelLater h budget req kept) (After c W) s := by
  have different : some mark ≠ some req := fun same => other (Option.some.inj same)
  have goes : (g.next req left).mark = some mark := by
    rw [← marked]
    exact if_neg (marked ▸ different)
  simp only [cancelLater, wp_bind, wp_get, next_done, wp_assert]
  refine ⟨fun _ => ?_, fun stuck => absurd (after.head_mem (not_not.mp stuck)) once⟩
  rw [after.mark, goes, if_pos ⟨by simp, different⟩]
  exact wp_bind_after (loop goes) (fun _ => id) (fun _ _ kept => .back trivial kept) fun _ _ fulfilled =>
    .pure fulfilled

/-- The loop of `cancel` ends with the last request before the shutdown, if that is the mark, or reports it. -/
theorem cancelRequests_after (budget : ℕ) : ∀ g s, 0 < g.locked → g.mark = some mark →
    (g.left.getLast? = some mark ∨ mark ∉ g.left ∧ g.called) → Waiting c g s →
    wp (Queue.cancelRequests h budget)
      (After c fun t => g.left.getLast? = some mark ∧ Waiting c ⟨[], g.locked, none, g.called⟩ t) s := by
  induction budget with
  | zero => exact fun _ s _ _ _ _ => .exhausted
  | succ budget ih =>
    intro g s held marked ends waiting
    obtain ⟨new, queue⟩ := waiting.queue
    have unique := waiting.nodup
    simp only [Queue.cancelRequests, wp_bind, wp_get, next_done]
    cases front : g.left with
    | nil =>
      have called : g.called := (ends.resolve_left (by simp [front])).2
      rw [front, List.nil_append] at queue
      rw [queue] at unique ⊢
      have behind : c.late ∉ c.post := fun member =>
        (List.nodup_cons.mp unique).1 (List.mem_append_left _ member)
      have logged : Waiting c g (s.log (.cancel c.late)) :=
        waiting.log ⟨(by rintro _ ⟨⟩), rfl, (by rintro _ ⟨⟩), behind⟩
      refine wp_attempt_after (W := fun _ => False) (abides.last held front called logged)
        (fun _ _ never => never.elim) ?_
      exact fun failed t fulfilled => cancelLater_keeps keeping budget c.late failed fulfilled
    | cons req left =>
      rw [front] at ends
      rw [front, List.cons_append] at queue
      rw [queue] at unique ⊢
      have behind : req ∉ c.post := fun member => (List.nodup_cons.mp unique).1 (by simp [member])
      have once : req ∉ left ++ [c.late] := fun member => (List.nodup_cons.mp unique).1 (by
        rcases List.mem_append.mp member with earlier | last
        · exact List.mem_append_left _ earlier
        · simp [List.mem_singleton.mp last])
      have logged : Waiting c g (s.log (.cancel req)) := waiting.log ⟨(by rintro _ ⟨⟩), rfl, (by rintro _ ⟨⟩), behind⟩
      have canceled : wp (h.cancel req .canceled) (After c fun t => Waiting c (g.next req left) t ∨
          Broken c t ∧ t.requests.head? = some req) (s.log (.cancel req)) := by
        refine wp_mono (abides.cancel held front marked logged) ?_
        rintro o t (after | ⟨rfl, stuck⟩)
        · exact after.mono fun _ => .inl
        · exact .back rfl (.inr stuck)
      refine wp_attempt_after canceled (f := cancelLater h budget req) ?_
        fun kept t fulfilled => cancelLater_keeps keeping budget req kept fulfilled
      rintro kept t (after | ⟨broken, stuck⟩)
      · by_cases last : mark = req
        · have empty : left = [] := by
            cases left with
            | nil => rfl
            | cons second later =>
              rcases ends with final | ⟨absent, _⟩
              · rw [List.getLast?_cons_cons, last] at final
                exact absurd (List.mem_append_left _ (List.mem_of_getLast? final)) once
              · exact absurd (last ▸ List.mem_cons_self) absent
          subst empty last
          exact wp_mono (cancelLater_last once marked after) fun _ _ => (After.mono · fun _ ended => ⟨rfl, ended⟩)
        · refine cancelLater_more once marked last after fun goes => ?_
          cases left with
          | nil =>
            have behind := ends.resolve_left fun final => last (Option.some.inj final).symm
            exact wp_mono (ih (g.next req []) t held goes (.inr ⟨by simp [Stage.next], behind.2⟩) after)
              fun _ _ => (After.mono · fun _ never => by cases never.1)
          | cons second later =>
            refine ih (g.next req (second :: later)) t held goes (ends.imp ?_ ?_) after
            · exact fun final => by rwa [List.getLast?_cons_cons] at final
            · exact fun absent => ⟨fun member => absent.1 (List.mem_cons_of_mem _ member), absent.2⟩
      · simp only [cancelLater, wp_bind, wp_get, next_done, wp_assert]
        exact ⟨fun moved => absurd stuck moved, fun _ => .broken broken⟩

/-- The part of `cancel` before its post step. -/
theorem cancelPending_after {W : State → Prop} (held : 0 < g.locked) (marked : g.mark = some mark)
    (loop : ∀ t, Waiting c g t → wp (Queue.cancelRequests h h.budget) (After c W) t) (waiting : Waiting c g s) :
    wp (Queue.cancelPending h (pure ())) (After c fun t => W t) s := by
  have rest (flushed : Bool) (t : State) (fulfilled : Fulfilled c t) : Keeps (Fulfilled c) (do
      let pre ← attempt (pure ())
      let canceled ← Queue.cancelWaiting h
      pure (flushed || pre || canceled)) t := by
    refine .bind (.attempt (.pure fulfilled)) fun _ t fulfilled => .bind (.get ?_) fun _ _ fulfilled => .pure fulfilled
    split
    · exact (cancelRequests_persists (X := []) (fulfilled_closed c) keeping _ t fulfilled).keeps
    · exact .pure fulfilled
  refine wp_bind_kept_after (flushFinalized_kept _ s) (flushFinalized_after abides keeping held _ s waiting) ?_ rest
  intro flushed t waiting
  have busy : t.requests ≠ [] ∧ t.cancelTill ≠ none := by
    refine ⟨List.ne_nil_of_mem waiting.late_mem, ?_⟩
    rw [waiting.mark, marked]
    exact Option.some_ne_none _
  have same : Queue.cancelWaiting h t = Queue.cancelRequests h h.budget t := by
    change (if t.requests ≠ [] ∧ t.cancelTill ≠ none then Queue.cancelRequests h h.budget else pure false) t = _
    rw [if_pos busy]
  change wp (Queue.cancelWaiting h >>= fun canceled => pure (flushed || false || canceled)) _ t
  refine wp_bind_kept_after (W := W) ?_ ?_ (fun _ _ kept => .back trivial kept) fun _ _ fulfilled => .pure fulfilled
  · rw [wp, same]
    exact cancelRequests_kept h.budget t
  · rw [wp, same]
    exact loop t waiting

omit abides in
/-- The post step and the `resume()` behind it keep what is fulfilled. -/
theorem cancelEnds_keeps {fpost : Exec State Unit} (gen : ℕ) (kept : Bool)
    (post : ∀ t, Fulfilled c t → Keeps (Fulfilled c) fpost t) (fulfilled : Fulfilled c s) :
    Keeps (Fulfilled c) (Queue.postCancel fpost gen >>= fun post => pure (kept || post)) s ∧
      Keeps (Fulfilled c) (do
        Exec.modify World.endCancel
        Queue.resume h
        when (kept = true) (halt .thrown)) s := by
  constructor
  · refine .bind (.get ?_) fun _ _ after => .pure after
    split
    · exact .attempt ((post s fulfilled).bind fun _ t after => .modify (after.later [] rfl))
    · exact .pure fulfilled
  · have ended : Fulfilled c s.endCancel := fulfilled.later [] rfl
    exact .modified (.bind (resume_persists (X := []) (fulfilled_closed c) keeping ended).keeps
      fun _ _ after => .when after fun _ => .halt after)

/-- `reset()` and `clear()` cancel what is left, the shutdown included. -/
theorem wiped_waiting {fpost : Exec State Unit} (waiting : Waiting c g s)
    (post : ∀ t, Fulfilled c t → Keeps (Fulfilled c) fpost t) :
    wp (do note .resetCall; Queue.cancel h (pure ()) fpost none) (After c fun _ => False) s := by
  obtain ⟨gone, events, pre, trace, record⟩ := waiting.record
  obtain ⟨new, queue⟩ := waiting.queue
  obtain ⟨mark, last⟩ : ∃ mark, (c.late :: (c.post ++ new)).getLast? = some mark :=
    ⟨_, List.getLast?_eq_some_getLast (List.cons_ne_nil _ _)⟩
  have marked : s.requests.getLast? = some mark := by rw [queue, List.getLast?_append_cons, last]
  have behind : mark ∉ g.left := by
    have unique := waiting.nodup
    rw [queue] at unique
    exact fun member => (List.nodup_append.mp unique).2.2 mark member mark (List.mem_of_getLast? last) rfl
  have called : Record c gone True (.own .resetCall :: events) := by
    have calm := record.calm (.own .resetCall nofun)
    refine { calm with called := fun _ => ?_ }
    rw [resets, List.countP_cons_of_pos (by simp)]
    exact Nat.succ_pos _
  have begun : Waiting c ⟨g.left, g.locked + 1, some mark, True⟩ ((s.log (.own .resetCall)).beginCancel none) :=
    { waiting with
      record := ⟨gone, .own .resetCall :: events, pre, logged_trace _ trace, called⟩,
      locked := congrArg (· + 1) waiting.locked, mark := marked }
  have loop (t : State) (waiting : Waiting c ⟨g.left, g.locked + 1, some mark, True⟩ t) :
      wp (Queue.cancelRequests h h.budget) (After c fun _ => False) t := by
    refine wp_mono
      (cancelRequests_after abides keeping h.budget ⟨g.left, g.locked + 1, some mark, True⟩ t (Nat.succ_pos _)
      rfl (.inr ⟨behind, trivial⟩) waiting) ?_
    intro o u after
    refine after.mono fun _ kept => ?_
    exact behind (List.mem_of_getLast? kept.1)
  have pending := cancelPending_after abides keeping (Nat.succ_pos _) rfl loop begun
  change wp (Queue.cancelLocked h (pure ()) fpost s.cancelGen >>= fun kept => do
    Exec.modify World.endCancel
    Queue.resume h
    when (kept = true) (halt .thrown)) _ ((s.log (.own .resetCall)).beginCancel none)
  refine wp_bind_after (W := fun _ => False) (wp_bind_after pending (fun _ => id) (fun _ _ never => never.elim) ?_)
    (fun _ => id)
    (fun _ _ never => never.elim) fun kept t fulfilled => (cancelEnds_keeps keeping 0 kept post fulfilled).2
  exact fun kept t fulfilled => (cancelEnds_keeps keeping _ kept post fulfilled).1

theorem user_waiting (held : 0 < g.locked) (waiting : Waiting c g s) : wp (user h) (After c (Waiting c g)) s :=
  user_after (Waiting.guarded g held) keeping (fun _ waiting => abides.user held waiting)
    (fun _ _ waiting post => wiped_waiting abides keeping waiting post) waiting

private theorem finalizeHandleConnect_waiting (held : 0 < g.locked) (front : g.left = req :: left)
    (marked : g.mark = some mark) (waiting : Waiting c g s) :
    wp (finalizeHandleConnect h (some .canceled) req) (After c (Waiting c (g.next req left))) s := by
  refine wp_tender (Tender.setConnectResult _) fun startErr owner same => ?_
  refine wp_tender (Tender.update fun _ => rfl) fun _ last same' => ?_
  have guarded : Guarded c (Waiting c g) := Waiting.guarded g held
  have after := guarded.owner last (guarded.owner owner waiting same) same'
  have canceling : ({ s with owner := last } : State).cancelTill ≠ none := by
    rw [after.mark, marked]
    exact Option.some_ne_none _
  rw [wp_get_bind, if_pos (.inr canceling)]
  exact done_waiting abides keeping held front after

/-- A connect whose `on_establish` throws stays where it is. -/
theorem connectEvent_waiting {id timeout : ℕ} (held : 0 < g.locked) (front : g.left = .connect id timeout :: left)
    (marked : g.mark = some mark) (waiting : Waiting c g s) : wp (handleEvent h (.connect id timeout) (some .canceled))
      (fun o t => After c (Waiting c (g.next (.connect id timeout) left)) o t ∨
        o = .halt .thrown ∧ Broken c t ∧ t.requests.head? = some (.connect id timeout)) s := by
  have noted : Waiting c g (s.log (.own (.connectEvent (.connect id timeout)))) := waiting.log (.own _ nofun)
  have same : handleEvent h (.connect id timeout) (some .canceled) s =
      (onEstablish h (.connect id timeout) >>= fun _ => finalizeHandleConnect h (some .canceled) (.connect id timeout))
        (s.log (.own (.connectEvent (.connect id timeout)))) := rfl
  refine wp_congr same ?_
  rw [wp_bind, onEstablish, wp_bind, wp_attempt]
  have goes (t : State) (fulfilled : Fulfilled c t) :
      Keeps (Fulfilled c) (finalizeHandleConnect h (some .canceled) (.connect id timeout)) t :=
    (finalizeHandleConnect_persists (X := []) (fulfilled_closed c) keeping fulfilled _ _).keeps
  refine wp_mono (user_waiting abides keeping held noted) ?_
  rintro (value | why) t after
  · rw [Kept, next_done, Exec.when, if_neg Bool.false_ne_true, wp_pure, next_done]
    cases after with
    | fulfilled fulfilled => exact wp_mono (goes t fulfilled) fun _ _ fulfilled => .inl (.fulfilled fulfilled)
    | back _ after =>
      exact wp_mono (finalizeHandleConnect_waiting abides keeping held front marked after) fun _ _ after => .inl after
  · cases after with
    | fulfilled fulfilled =>
      cases why with
      | thrown => exact .inl (.fulfilled (fulfilled.later [.own (.connectLeft (.connect id timeout))] rfl))
      | _ => exact .inl (.fulfilled fulfilled)
    | back returned after =>
      cases returned
      exact .inr ⟨rfl, after.broken front, after.front front⟩
    | broken broken => exact .inl (.broken broken)
    | stopped => exact .inl .stopped
    | exhausted => exact .inl .exhausted

end Members

/-! ### The shutdown itself -/

/-- Everything is reported, and nothing behind the shutdown has been touched. -/
structure Late (c : Course) (locked : ℕ) (s : State) : Prop where
  owed : ∃ events, s.trace = events ++ c.base ∧ c.expected <:+ reports c.targets events ∧
    Along (LeavesCompleted c.pre) events ∧ (∀ req ∈ c.pre, req ∈ dones events) ∧ ∀ e ∈ events, ¬ Touches c.post e
  queue : ∃ new, s.requests = c.post ++ new
  locked : s.locked = locked

theorem Waiting.late (waiting : Waiting c g s) (last : g.left = []) (owner : Handle) :
    Late c (g.locked + 1) (Stream.finishing { s with owner } c.late (.notifyOn c.late (some .timedOut))) ∧
      (g.called → Fulfilled c (Stream.finishing { s with owner } c.late (.notifyOn c.late (some .timedOut)))) := by
  obtain ⟨gone, events, pre, trace, record⟩ := waiting.record
  obtain ⟨new, queue⟩ := waiting.queue
  rw [last, List.append_nil] at pre
  rw [last, List.nil_append] at queue
  subst pre
  let events' :=
    .finish c.late (.notifyOn c.late (some .timedOut)) s.finalizedRequests :: .done c.late s.requests :: events
  have told : reports c.targets events' = c.expected := by
    have before : reports c.targets (.done c.late s.requests :: events) = canceledReports c.pre := record.told
    rw [reports_finish (by simp [Course.targets]), before]
    rfl
  have trace' : (Stream.finishing { s with owner } c.late (.notifyOn c.late (some .timedOut))).trace =
      events' ++ c.base := by
    change _ :: _ :: s.trace = _ :: _ :: (events ++ c.base)
    rw [trace]
  have done (req : Req) (member : req ∈ c.pre) : req ∈ dones events' := by
    have same : dones events' = c.late :: dones events := rfl
    rw [same, record.completed]
    exact List.mem_cons_of_mem _ (List.mem_reverse.mpr member)
  have behind : c.late ∉ c.post := by
    have unique := waiting.nodup
    rw [queue] at unique
    exact fun member => (List.nodup_cons.mp unique).1 (List.mem_append_left _ member)
  refine ⟨⟨⟨events', trace', told ▸ List.suffix_refl _, ⟨trivial, trivial, record.orderly⟩, done, fun e member => ?_⟩,
    ⟨new, ?_⟩,
    congrArg (· + 1) waiting.locked⟩, fun called => ⟨events', trace', told ▸ List.suffix_refl _,
      ⟨trivial, trivial, record.orderly⟩, done, fun none => absurd none (Nat.ne_of_gt (record.called called))⟩⟩
  · rcases List.mem_cons.mp member with rfl | member
    · exact id
    · rcases List.mem_cons.mp member with rfl | old
      · exact behind
      · exact record.untouched e old
  · change s.requests.tail = _
    rw [queue]
    rfl

/-- The timeout of the shutdown at the front, up to its callback. -/
theorem lateEvent_wp {Q : Outcome Unit → State → Prop} (waiting : Waiting c g s) (last : g.left = []) (owner : Handle)
    (body : ∀ owner, wp (scopeGuard (h.call (.notifyOn c.late (some .timedOut))) (Queue.release h)) Q
      (Stream.finishing { s with owner } c.late (.notifyOn c.late (some .timedOut)))) :
    wp (handleEvent h c.late (some .timedOut)) Q { s with owner } := by
  have atFront : s.requests.head? = some c.late := by
    obtain ⟨new, queue⟩ := waiting.queue
    rw [queue, last]
    rfl
  have shallow : s.resumeRecursion ≤ Queue.SPLIT_RECURSION := waiting.recursion ▸ c.shallow
  have async := waiting.async c.late (List.mem_append_right _ List.mem_cons_self)
  refine wp_tender (s := { s with owner }) (Tender.bind (.setFlags _) fun _ => .when (.setFlags _)) fun _ owner' _ => ?_
  refine wp_tender (s := { s with owner := owner' }) (Tender.update fun _ => rfl) fun _ owner'' _ => ?_
  exact wp_done_finish (s := { s with owner := owner'' }) atFront shallow async (body owner'')

private theorem finish_keeps (keeping : Keeping c h) (f : Fn) (fulfilled : Fulfilled c s) :
    Keeps (Fulfilled c) (scopeGuard (h.call f) (Queue.release h)) s :=
  .scopeGuard (keeping.call (X := []) f fulfilled).keeps fun _ after =>
    (release_persists (X := []) (fulfilled_closed c) keeping (fun _ fulfilled => fulfilled.later [] rfl) after).keeps

/-! ### Members of any depth -/

section Depth
variable (abides : Abides c h) (keeping : Keeping c h)
include abides keeping

private theorem cancel_waiting {req mark : Req} (held : 0 < g.locked) (front : g.left = req :: left)
    (marked : g.mark = some mark) (waiting : Waiting c g s) :
    wp (cancel h req .canceled) (fun o t => After c (Waiting c (g.next req left)) o t ∨
      o = .halt .thrown ∧ Broken c t ∧ t.requests.head? = some req) s := by
  obtain ⟨gone, events, pre, _⟩ := waiting.record
  have kind := c.kinds req (by simp [pre, front])
  cases req with
  | connect id timeout => exact connectEvent_waiting abides keeping held front marked waiting
  | write id bufs => exact wp_mono (done_waiting abides keeping held front waiting) fun _ _ after => .inl after
  | _ => rcases kind with connect | write <;> contradiction

omit abides in
private theorem last_waiting (last : g.left = []) (called : g.called) (waiting : Waiting c g s) :
    wp (cancel h c.late .canceled) (After c fun _ => False) s := by
  change wp (get >>= fun s => if s.owner.timedOut c.late = true ∧ Err.canceled = .canceled then _ else _) _ s
  rw [wp_get_bind, if_pos ⟨waiting.flag, rfl⟩]
  refine lateEvent_wp waiting last _ fun owner => ?_
  exact wp_mono (finish_keeps keeping _ ((waiting.late last owner).2 called)) fun _ _ => .fulfilled

end Depth

theorem members_abide (c : Course) (n : ℕ) : Abides c (members n) := by
  induction n with
  | zero =>
    exact ⟨fun _ _ => .exhausted, fun _ _ _ _ => .exhausted, fun _ _ _ _ => .exhausted, fun _ _ _ _ => .inl .exhausted,
      fun _ _ _ _ => .exhausted⟩
  | succ n ih =>
    have keeping := members_keeping c n
    refine ⟨user_waiting ih keeping, fun req err held waiting => ?_, fun req err => user_waiting ih keeping,
      cancel_waiting ih keeping, fun _ => last_waiting keeping⟩
    cases req with
    | connect | write | shutdown => exact user_waiting ih keeping held waiting
    | _ => exact .back trivial waiting

end UniEvent.Stream.Timeout
