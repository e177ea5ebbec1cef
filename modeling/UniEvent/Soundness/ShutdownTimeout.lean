import UniEvent.Proofs.QueueSubmit
import UniEvent.Proofs.StreamReady
import UniEvent.Proofs.StreamTimeoutLate
import UniEvent.Soundness.StreamNotify

/-! # The timeout of a shutdown

When the timer of a shutdown fires, the requests before it are canceled in their order and reported as such, then the
shutdown is reported as timed out, whatever their callbacks do. If nobody calls `reset()` or `clear()`, the next request
is executed in the same callback and nothing behind the shutdown is canceled before.

This fails in two ways. An exception of `on_establish` leaves the connect that is being canceled at the front, and the
assertion of `Queue::cancel` fails. And if exceptions of code run in order have left the recursion counter over its
limit, the reports are put off.
-/

namespace UniEvent.Stream

open Program Program.Exec

variable {s t : State} {h : Members} {k : ℕ} {pre post : List Req} {u : Turn} {late req : Req}

structure TimesOut (pre : List Req) (late : Req) (post : List Req) (s t : State) : Prop where
  /-- The reports of these requests since `s`, oldest last. -/
  told : (late, some .timedOut) :: canceledReports pre <:+ reports (pre ++ [late]) (eventsSince s t)
  once : Along FirstSincePushAt t.trace
  next : resets (eventsSince s t) = 0 → post ≠ [] → HandedOn post (eventsSince s t)

theorem TimesOut.heard (timed : TimesOut pre late post s t) :
    (late, some .timedOut) ∈ reports (pre ++ [late]) (eventsSince s t) := timed.told.subset List.mem_cons_self

/-! ### Reports that are put off -/

/-- Since `base` the user has not heard that `late` timed out. -/
def Unheard (late : Req) (base : List (Event Req Fn Note)) (s : State) : Prop :=
  ∃ events, s.trace = events ++ base ∧ ∀ e ∈ events, reported? e ≠ some (late, some .timedOut)

theorem Unheard.not_timesOut (unheard : Unheard late s.trace t) : ¬ TimesOut pre late post s t := by
  intro timed
  obtain ⟨events, trace, other⟩ := unheard
  have heard := timed.heard
  rw [eventsSince_eq trace, reports, List.mem_filter, List.mem_filterMap] at heard
  obtain ⟨⟨e, member, told⟩, _⟩ := heard
  exact other e member told

theorem Unheard.log {base : List (Event Req Fn Note)} {e : Event Req Fn Note} (unheard : Unheard late base s)
    (other : reported? e ≠ some (late, some .timedOut)) : Unheard late base (s.log e) := by
  obtain ⟨events, trace, before⟩ := unheard
  refine ⟨e :: events, congrArg (e :: ·) trace, fun e' member => ?_⟩
  rcases List.mem_cons.mp member with rfl | old
  · exact other
  · exact before e' old

theorem Ordinary.unheard {e : Event Req Fn Note} (ordinary : Ordinary e) (late : Req) :
    reported? e ≠ some (late, some .timedOut) := by
  cases e with
  | finish | fire => exact ordinary.elim
  | notify req err =>
    cases ordinary
    exact fun same => by cases same
  | _ => exact fun same => by cases same

/-- While the recursion counter is over its limit no closure is run at once. -/
theorem unheard_closed (late : Req) (base : List (Event Req Fn Note)) :
    Closed (fun _ s => Queue.SPLIT_RECURSION < s.resumeRecursion ∧ Unheard late base s) (Unheard late base) where
  frame holds trace _ _ recursion := by
    obtain ⟨deep, events, before, other⟩ := holds
    exact ⟨recursion ▸ deep, events, trace.trans before, other⟩
  log holds ordinary := ⟨holds.1, holds.2.log (ordinary.unheard late)⟩
  enqueue req holds := ⟨holds.1, holds.2.log (e := .push req) nofun⟩
  pushed _ holds := holds
  retire _ holds := holds
  finish holds shallow := absurd holds.1 (Nat.not_lt.mpr shallow)
  weaker holds := holds.2

/-! ### The timer callback -/

private theorem shutdownTimeout_ends (total : Total h k) (req : Req) : Tame k (shutdownTimeout h req) := by
  intro s light
  have cancels : Tame k (cancel h req .timedOut) :=
    fun m below => cancelMember_ends total req _ m (Nat.lt_succ_of_lt below)
  rw [shutdownTimeout, wp_get_bind]
  split
  · refine wp_local_ends (.setTimedOut _ true) fun _ m handled => ?_
    have below : weight m < k := lt_of_le_of_lt handled.shrinks.le light
    refine cancel_ends total _ (Nat.lt_succ_of_lt below) (fun m' le => ?_) cancels
    exact ⟨.done () .refl, fun _ => lt_of_le_of_lt le below⟩
  · exact cancels s light

/-- The state in which the callback of the timer starts. -/
def fired (u : Turn) (req : Req) (s : State) : State :=
  { s.log (.own .turn) with owner := { s.owner with
    script := u.script
    replies := u.replies
    shutdownTimer := Function.update s.owner.shutdownTimer req false } }

theorem turn_shutdownTimer (task : u.task = .shutdownTimer req) (armed : s.owner.shutdownTimer req = true) :
    turn u s = shutdownTimeout (members u.depth) req (fired u req s) := by
  obtain ⟨depth, script, replies, _⟩ := u
  cases task
  change when (s.owner.shutdownTimer req = true) _ _ = _
  rw [Exec.when, if_pos armed]
  rfl

private theorem turn_ends (task : u.task = .shutdownTimer req) (armed : s.owner.shutdownTimer req = true)
    (deep : 3 * u.script.length + 2 * s.requests.length + s.finalizedRequests.length + 3 ≤ u.depth) :
    Ends (fired u req s) (turn u s).1 (turn u s).2 := by
  rw [turn_shutdownTimer task armed]
  exact shutdownTimeout_ends (members_total (weight (fired u req s) + 1) u.depth deep) req _ (Nat.lt_succ_self _)

private theorem turn_accounts (u : Turn) (rest : AtRest s) (parked : Parked s) (ledger : Accounts s) :
    Accounts (turn u s).2 := by
  have along : Wf (turn u s).2 ∧ Parked (turn u s).2 ∧ Accounts (turn u s).2 := by
    refine (turn_post u rest).path.invariant (I := fun s => Wf s ∧ Parked s ∧ Accounts s) ?_ ⟨rest.wf, parked, ledger⟩
    rintro s t step ⟨wf, parked, before⟩
    exact ⟨step.wf (fun _ _ => Move.wf) wf, Step.parked step parked, Step.accounts step wf parked before⟩
  exact along.2.2

/-- Over the limit the shutdown is not reported. -/
theorem turn_unheard (task : u.task = .shutdownTimer req) (armed : s.owner.shutdownTimer req = true)
    (deep : Queue.SPLIT_RECURSION < s.resumeRecursion) : Unheard req s.trace (turn u s).2 := by
  have closed := unheard_closed req s.trace
  have begun : Unheard req s.trace (fired u req s) := ⟨[.own .turn], rfl, by simp [reported?]⟩
  have left :=
    shutdownTimeout_persists (X := []) (s := fired u req s) closed (members_persists closed u.depth) ⟨deep, begun⟩ req
  rw [turn_shutdownTimer task armed]
  exact left.elim And.right And.right

/-- The queue when the timer fires, as the proofs about the callback see it. -/
def course (s : State) (pre post : List Req) (id timeout : ℕ) (shallow : s.resumeRecursion ≤ Queue.SPLIT_RECURSION)
    (unique : pre.Nodup) (kinds : ∀ req ∈ pre, req.isConnect = true ∨ req.isWrite = true) : Timeout.Course :=
  ⟨s.trace, pre, id, timeout, post, s.cancelGen, s.resumeRecursion, shallow, unique, kinds⟩

/-- If the recursion counter is within its limit, the callback fulfills what is owed or stops at an exception of
`on_establish`. -/
theorem turn_after {id timeout : ℕ} (rest : AtRest s) (ready : Ready [] s)
    (queue : s.requests = pre ++ .shutdown id timeout :: post) (unique : pre.Nodup)
    (kinds : ∀ req ∈ pre, req.isConnect = true ∨ req.isWrite = true)
    (shallow : s.resumeRecursion ≤ Queue.SPLIT_RECURSION) (task : u.task = .shutdownTimer (.shutdown id timeout))
    (armed : s.owner.shutdownTimer (.shutdown id timeout) = true) :
    Timeout.After (course s pre post id timeout shallow unique kinds) (fun _ => False) (turn u s).1 (turn u s).2 := by
  rw [turn_shutdownTimer task armed]
  apply Timeout.shutdownTimeout_late
  have linked := List.nodup_append.mp rest.wf.nodup
  have member {req : Req} (target : req ∈ pre ++ [.shutdown id timeout]) : req ∈ s.requests := by
    rw [queue]
    rcases List.mem_append.mp target with before | last
    · exact List.mem_append_left _ before
    · exact List.mem_append_right _ (List.mem_singleton.mp last ▸ List.mem_cons_self)
  constructor
  · refine ⟨[], [.own .turn], rfl, rfl, rfl, rfl, ⟨trivial, trivial⟩, ?_, False.elim⟩
    simp [Touches]
  · exact ⟨[], by rw [List.append_nil]; exact queue⟩
  · exact linked.2.1
  · exact fun req target => ready req (member target) (by simp)
  · exact fun req target parked => linked.2.2 req parked req (member target) rfl
  · exact rest.free
  · rfl
  · exact Function.update_self ..
  · rfl
  · exact rest.ctl.idle rest.free

theorem Timeout.Broken.not_timesOut {c : Timeout.Course} (broken : Timeout.Broken c t) (base : c.base = s.trace) :
    ¬ TimesOut c.pre c.late c.post s t := by
  intro timed
  obtain ⟨events, gone, left, trace, _, told, _⟩ := broken.early
  have heard := timed.heard
  rw [eventsSince_eq (base ▸ trace)] at heard
  change _ ∈ reports c.targets events at heard
  rw [told] at heard
  simp [canceledReports] at heard

/-- The timer does what it should if and only if the recursion counter is within its limit and no exception leaves the
`on_establish` of a connect that is still being canceled. -/
theorem shutdownTimer_iff (ts : List Turn) (idle : (run ts initial).1 = .done ()) {pre post : List Req} {id timeout : ℕ}
    (queue : (run ts initial).2.requests = pre ++ .shutdown id timeout :: post)
    (kinds : ∀ req ∈ pre, req.isConnect = true ∨ req.isWrite = true)
    (armed : (run ts initial).2.owner.shutdownTimer (.shutdown id timeout) = true) {u : Turn}
    (task : u.task = .shutdownTimer (.shutdown id timeout)) (awake : Act.stop ∉ u.script)
    (deep : 3 * u.script.length + 2 * (run ts initial).2.requests.length +
      (run ts initial).2.finalizedRequests.length + 3 ≤ u.depth) :
    ((turn u (run ts initial).2).1 ≠ .halt .exhausted ∧
      TimesOut pre (.shutdown id timeout) post (run ts initial).2 (turn u (run ts initial).2).2) ↔
    (run ts initial).2.resumeRecursion ≤ Queue.SPLIT_RECURSION ∧
      Along (LeavesCompleted pre) (eventsSince (run ts initial).2 (turn u (run ts initial).2).2) := by
  have back : (run ts initial).1.Returned := Outcome.returned_of_eq idle
  have rest : AtRest (run ts initial).2 := (run_post ts initial initial_atRest).2 back
  have ready := run_ready ts back
  have parked : Parked (run ts initial).2 :=
    run_invariant (I := Parked) (fun _ _ step _ parked _ => Step.parked step parked) initial_parked ts
  have ledger := run_accounts ts
  generalize (run ts initial).2 = s at *
  have unique : pre.Nodup := by
    have linked := (List.nodup_append.mp rest.wf.nodup).2.1
    rw [queue] at linked
    exact (List.nodup_append.mp linked).1
  have ends := turn_ends task armed deep
  constructor
  · rintro ⟨_, timed⟩
    have shallow : s.resumeRecursion ≤ Queue.SPLIT_RECURSION :=
      Nat.le_of_not_lt fun beyond => (turn_unheard task armed beyond).not_timesOut timed
    refine ⟨shallow, ?_⟩
    have after := turn_after rest ready queue unique kinds shallow task armed
    generalize (turn u s).1 = o at after ends
    cases after with
    | fulfilled fulfilled =>
      obtain ⟨events, trace, _, orderly, _⟩ := fulfilled.owed
      rw [eventsSince_eq trace]
      exact orderly
    | back _ never => exact never.elim
    | broken broken => exact absurd timed (broken.not_timesOut rfl)
    | stopped => exact absurd rfl (ends.stopped awake)
    | exhausted => exact absurd rfl ends.exhausted
  · rintro ⟨shallow, orderly⟩
    have once := (turn_accounts u rest parked ledger).once
    have after := turn_after rest ready queue unique kinds shallow task armed
    generalize (turn u s).1 = o at after ends
    refine ⟨ends.exhausted, ?_⟩
    cases after with
    | fulfilled fulfilled =>
      obtain ⟨events, trace, told, _, _, next⟩ := fulfilled.owed
      refine ⟨?_, once, ?_⟩
      · rw [eventsSince_eq trace]
        exact told
      · rw [eventsSince_eq trace]
        exact next
    | back _ never => exact never.elim
    | broken broken =>
      obtain ⟨events, _, _, trace, _, _, early⟩ := broken.early
      rw [eventsSince_eq trace] at orderly
      exact absurd orderly early
    | stopped => exact absurd rfl (ends.stopped awake)
    | exhausted => exact absurd rfl ends.exhausted

/-- A connect that waits for the backend, a write, a shutdown with a timeout, and another write. -/
def behindConnect : List Turn :=
  [{ depth := 30, task := .op (.connect 1 0) }, { depth := 30, task := .op (.write 2 [5]) },
   { depth := 30, task := .op (.shutdown 3 1000) }, { depth := 30, task := .op (.write 4 [7]) }]

/-- The timer fires; the callback of the connect calls `reset()`. -/
def resetTimer : Turn :=
  { depth := 30, script := [.ret, .op .reset, .ret], task := .shutdownTimer (.shutdown 3 1000) }

theorem resetTimer_timesOut : TimesOut [.connect 1 0, .write 2 [5]] (.shutdown 3 1000) [.write 4 [7]]
    (run behindConnect initial).2 (turn resetTimer (run behindConnect initial).2).2 :=
  ((shutdownTimer_iff behindConnect (by decide +kernel) (by decide +kernel) (by decide)
    (by decide +kernel) rfl (by decide)
    (by decide +kernel)).mpr ⟨by decide +kernel, by decide +kernel⟩).2

/-- The timer fires; `on_establish` of the connect throws. -/
def throwingTimer : Turn :=
  { depth := 30, script := [.throw], task := .shutdownTimer (.shutdown 3 1000) }

theorem throwingTimer_not_timesOut :
    (turn throwingTimer (run behindConnect initial).2).1 = .halt .aborted ∧
      ¬ TimesOut [.connect 1 0, .write 2 [5]] (.shutdown 3 1000) [.write 4 [7]]
        (run behindConnect initial).2 (turn throwingTimer (run behindConnect initial).2).2 :=
  ⟨by decide +kernel, fun timed => absurd timed.heard (by decide +kernel)⟩

end UniEvent.Stream
