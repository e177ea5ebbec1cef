import UniEvent.Proofs.StreamClosed

/-! # What the timer of a shutdown owes

When the timer of a shutdown fires, the requests before it are canceled one by one and then the shutdown itself times
out. `Course` fixes the queue at that moment. `Fulfilled` says what the call owes: the requests up to the shutdown have
been reported to the user in order and with the right status, and, unless `reset()` or `clear()` was called, those
behind it were left alone until the next one was executed. It is kept by all code, so once it holds nothing else
matters.

The callbacks that run before that are code of the user under a lock. `After` is what is known when such code ends.
-/

namespace UniEvent.Stream

open Program Program.Exec

/-- What an event tells the user about which request. -/
def reported? : Event Req Fn Note → Option (Req × Option Err)
  | .finish _ (.notifyOn req err) _ | .fire _ (.notifyOn req err) => some (req, err)
  | .notify req err => some (req, some err)
  | _ => none

/-- What the user was told about `targets`, newest first. -/
def reports (targets : List Req) (events : List (Event Req Fn Note)) : List (Req × Option Err) :=
  (events.filterMap reported?).filter fun report => decide (report.1 ∈ targets)

/-- An exception of `on_establish` leaves only connects that have been completed by then. -/
def LeavesCompleted (pre : List Req) : Event Req Fn Note → List (Event Req Fn Note) → Prop
  | .own (.connectLeft req), before => req ∈ pre → req ∈ dones before
  | _, _ => True

instance (pre : List Req) : ∀ e before, Decidable (LeavesCompleted pre e before)
  | .own (.connectLeft req), before => inferInstanceAs (Decidable (req ∈ pre → req ∈ dones before))
  | .own (.connectEvent _), _ | .own .resetCall, _ | .own (.runNow _), _ | .own (.passed _ _), _
  | .own (.zero _), _ | .own .turn, _ => .isTrue trivial
  | .push _, _ | .exec _ _, _ | .done _ _, _ | .finish _ _ _, _ | .fire _ _, _ | .notify _ _, _ | .cancel _, _
  | .resume _, _ | .skip _ _, _ => .isTrue trivial

/-- Some request is executed, or one of `post` is canceled or completed. -/
def Touches (post : List Req) : Event Req Fn Note → Prop
  | .exec _ _ => True
  | .cancel req | .done req _ => req ∈ post
  | _ => False

/-- The first of `post` was executed, and nothing of `post` was touched before. -/
def HandedOn (post : List Req) (events : List (Event Req Fn Note)) : Prop :=
  ∃ later next queue before, events = later ++ .exec next queue :: before ∧ post.head? = some next ∧
    ∀ e ∈ before, ¬ Touches post e

/-- The reports of requests that are canceled in their order, newest first. -/
def canceledReports (requests : List Req) : List (Req × Option Err) :=
  (requests.map fun req => (req, some .canceled)).reverse

def Req.isWrite : Req → Bool
  | .write _ _ => true
  | _ => false

namespace Timeout

/-- The queue when the timer of a shutdown fires, and the counters and the log. -/
structure Course where
  base : List (Event Req Fn Note)
  pre : List Req
  id : ℕ
  timeout : ℕ
  post : List Req
  gen : ℕ
  recursion : ℕ
  shallow : recursion ≤ Queue.SPLIT_RECURSION
  unique : pre.Nodup
  kinds : ∀ req ∈ pre, req.isConnect = true ∨ req.isWrite = true

namespace Course

variable (c : Course)

/-- The request whose timer fires. -/
def late : Req := .shutdown c.id c.timeout

/-- The requests that the user is told about. -/
def targets : List Req := c.pre ++ [c.late]

/-- Everything reported as it should be, newest first. -/
def expected : List (Req × Option Err) := (c.late, some .timedOut) :: canceledReports c.pre

end Course

/-- What the call owes. -/
structure Fulfilled (c : Course) (s : State) : Prop where
  owed : ∃ events, s.trace = events ++ c.base ∧ c.expected <:+ reports c.targets events ∧
    Along (LeavesCompleted c.pre) events ∧ (∀ req ∈ c.pre, req ∈ dones events) ∧
    (resets events = 0 → c.post ≠ [] → HandedOn c.post events)

variable {c : Course} {s t : State} {h : Members} {m : Exec State Unit}

theorem reports_append (targets : List Req) (new events : List (Event Req Fn Note)) :
    reports targets (new ++ events) = reports targets new ++ reports targets events := by
  simp [reports]

private theorem resets_append (new events : List (Event Req Fn Note)) :
    resets (new ++ events) = resets new + resets events := List.countP_append

/-- Once all requests before the shutdown have been completed, nothing can leave too early. -/
theorem leavesCompleted_append {pre : List Req} {events : List (Event Req Fn Note)} (new : List (Event Req Fn Note))
    (orderly : Along (LeavesCompleted pre) events) (done : ∀ req ∈ pre, req ∈ dones events) :
    Along (LeavesCompleted pre) (new ++ events) := by
  induction new with
  | nil => exact orderly
  | cons e new ih =>
    refine ⟨?_, ih⟩
    have later : ∀ req ∈ pre, req ∈ dones (new ++ events) := fun req member => by
      rw [dones, List.filterMap_append]
      exact List.mem_append_right _ (done req member)
    cases e with
    | own note =>
      cases note with
      | connectLeft req => exact later req
      | _ => trivial
    | _ => trivial

theorem Fulfilled.later (fulfilled : Fulfilled c s) (new : List (Event Req Fn Note))
    (trace : t.trace = new ++ s.trace) : Fulfilled c t := by
  obtain ⟨events, same, told, orderly, done, behind⟩ := fulfilled.owed
  refine ⟨new ++ events, by rw [trace, same, List.append_assoc], ?_, leavesCompleted_append new orderly done, ?_, ?_⟩
  · rw [reports_append]
    exact told.trans (List.suffix_append _ _)
  · intro req member
    rw [dones, List.filterMap_append]
    exact List.mem_append_right _ (done req member)
  · intro none some
    rw [resets_append] at none
    obtain ⟨later, next, queue, before, split, first, untouched⟩ := behind (by omega) some
    exact ⟨new ++ later, next, queue, before, by rw [split, List.append_assoc], first, untouched⟩

theorem fulfilled_closed (c : Course) : Closed (fun _ => Fulfilled c) (Fulfilled c) where
  frame fulfilled trace _ _ _ := fulfilled.later [] trace
  log fulfilled _ := fulfilled.later [_] rfl
  enqueue req fulfilled := fulfilled.later [.push req] rfl
  pushed _ fulfilled := fulfilled.later [] rfl
  retire _ fulfilled := fulfilled.later [] rfl
  finish _ _ := ⟨fun e fulfilled => fulfilled.later [e] rfl, fun _ fulfilled => fulfilled.later [] rfl⟩
  weaker fulfilled := fulfilled

/-- All code keeps what is fulfilled. -/
abbrev Keeping (c : Course) (h : Members) : Prop := Persists (fun _ => Fulfilled c) (Fulfilled c) h

theorem members_keeping (c : Course) (n : ℕ) : Keeping c (members n) := members_persists (fulfilled_closed c) n

/-! ### Code that runs before everything is reported -/

/-- An exception has left the `on_establish` of a connect that was still waiting, and the shutdown is not reported. -/
structure Broken (c : Course) (s : State) : Prop where
  early : ∃ events gone left, s.trace = events ++ c.base ∧ c.pre = gone ++ left ∧
    reports c.targets events = canceledReports gone ∧ ¬ Along (LeavesCompleted c.pre) events

/-- What is known when code that started from `W` ends. -/
inductive After (c : Course) (W : State → Prop) {α : Type} : Outcome α → State → Prop
  | fulfilled {o : Outcome α} {t : State} (fulfilled : Fulfilled c t) : After c W o t
  | back {o : Outcome α} {t : State} (returned : o.Returned) (kept : W t) : After c W o t
  | broken {t : State} (broken : Broken c t) : After c W (.halt .aborted) t
  | stopped {t : State} : After c W (.halt .stopped) t
  | exhausted {t : State} : After c W (.halt .exhausted) t

section After
variable {W W' : State → Prop} {α β : Type}

theorem After.mono {o : Outcome α} (after : After c W o t) (weaker : ∀ t, W t → W' t) : After c W' o t := by
  cases after with
  | fulfilled fulfilled => exact .fulfilled fulfilled
  | back returned kept => exact .back returned (weaker t kept)
  | broken broken => exact .broken broken
  | stopped => exact .stopped
  | exhausted => exact .exhausted

/-- The second call starts where the first came back, or with everything fulfilled. -/
theorem wp_bind_after {m : Exec State α} {f : α → Exec State β} (first : wp m (After c W) s)
    (thrown : ∀ t, W t → W' t) (rest : ∀ value t, W t → wp (f value) (After c W') t)
    (keeps : ∀ value t, Fulfilled c t → Keeps (Fulfilled c) (f value) t) : wp (m >>= f) (After c W') s := by
  rw [wp_bind]
  refine wp_mono first ?_
  rintro (value | why) t after
  · cases after with
    | fulfilled fulfilled => exact wp_mono (keeps value t fulfilled) fun _ _ => .fulfilled
    | back _ kept => exact rest value t kept
  · cases after with
    | fulfilled fulfilled => exact .fulfilled fulfilled
    | back returned kept => exact .back returned (thrown t kept)
    | broken broken => exact .broken broken
    | stopped => exact .stopped
    | exhausted => exact .exhausted

/-- The same if the first call lets no exception out. -/
theorem wp_bind_kept_after {m : Exec State α} {f : α → Exec State β} (quiet : wp m (fun o _ => o ≠ .halt .thrown) s)
    (first : wp m (After c W) s) (rest : ∀ value t, W t → wp (f value) (After c W') t)
    (keeps : ∀ value t, Fulfilled c t → Keeps (Fulfilled c) (f value) t) : wp (m >>= f) (After c W') s := by
  rw [wp_bind]
  refine wp_mono (wp_and quiet first) ?_
  rintro (value | why) t ⟨quiet, after⟩
  · cases after with
    | fulfilled fulfilled => exact wp_mono (keeps value t fulfilled) fun _ _ => .fulfilled
    | back _ kept => exact rest value t kept
  · cases after with
    | fulfilled fulfilled => exact .fulfilled fulfilled
    | back returned kept => exact absurd (congrArg Outcome.halt returned) quiet
    | broken broken => exact .broken broken
    | stopped => exact .stopped
    | exhausted => exact .exhausted

/-- A call whose exception is kept comes back. -/
theorem wp_attempt_after {f : Bool → Exec State β} (first : wp m (After c W) s)
    (rest : ∀ failed t, W t → wp (f failed) (After c W') t)
    (keeps : ∀ failed t, Fulfilled c t → Keeps (Fulfilled c) (f failed) t) : wp (attempt m >>= f) (After c W') s := by
  rw [wp_bind, wp_attempt]
  refine wp_mono first ?_
  rintro (value | why) t after
  · cases after with
    | fulfilled fulfilled => exact wp_mono (keeps false t fulfilled) fun _ _ => .fulfilled
    | back _ kept => exact rest false t kept
  · cases after with
    | fulfilled fulfilled =>
      cases why with
      | thrown => exact wp_mono (keeps true t fulfilled) fun _ _ => .fulfilled
      | _ => exact .fulfilled fulfilled
    | back returned kept =>
      cases returned
      exact rest true t kept
    | broken broken => exact .broken broken
    | stopped => exact .stopped
    | exhausted => exact .exhausted

end After

/-! ### Code of the user under a lock -/

/-- Code that only touches the handle, and no flag of a shutdown request. -/
def Tender {α : Type} (m : Exec State α) : Prop :=
  ∀ s, wp m
    (fun o t => (∃ value, o = .done value) ∧ ∃ owner, t = { s with owner } ∧ owner.timedOut = s.owner.timedOut) s

section Tender
variable {α β : Type}

theorem wp_tender {m : Exec State β} {f : β → Exec State α} {Q : Outcome α → State → Prop} (first : Tender m)
    (rest : ∀ value owner, owner.timedOut = s.owner.timedOut → wp (f value) Q { s with owner }) : wp (m >>= f) Q s := by
  rw [wp_bind]
  refine wp_mono (first s) ?_
  rintro o t ⟨⟨value, rfl⟩, owner, rfl, same⟩
  exact rest value owner same

theorem Tender.pure (value : α) : Tender (pure value : Exec State α) := fun s => ⟨⟨value, rfl⟩, s.owner, rfl, rfl⟩

theorem Tender.bind {m : Exec State β} {f : β → Exec State α} (first : Tender m) (rest : ∀ value, Tender (f value)) :
    Tender (m >>= f) := by
  intro s
  refine wp_tender first fun value owner same => wp_mono (rest value { s with owner }) ?_
  rintro o t ⟨done, last, rfl, same'⟩
  exact ⟨done, last, rfl, same'.trans same⟩

theorem Tender.get : Tender (Exec.get : Exec State State) := fun s => ⟨⟨s, rfl⟩, s.owner, rfl, rfl⟩

theorem Tender.update {f : Handle → Handle} (same : ∀ o, (f o).timedOut = o.timedOut) : Tender (update f) :=
  fun s => ⟨⟨(), rfl⟩, f s.owner, rfl, same s.owner⟩

theorem Tender.setFlags (f : Flags → Flags) : Tender (setFlags f) := .update fun _ => rfl

theorem Tender.when {p : Prop} [Decidable p] (inner : Tender m) : Tender (when p m) := by
  by_cases holds : p
  · simpa only [Exec.when, if_pos holds] using inner
  · simpa only [Exec.when, if_neg holds] using Tender.pure ()

theorem Tender.nextAct : Tender nextAct := .bind .get fun _ => .bind (.update fun _ => rfl) fun _ => .pure _

theorem Tender.readStart : Tender _readStart := by
  refine .bind .get fun s => ?_
  split
  · exact .pure none
  · refine .bind (.bind .get fun _ => .bind (.update fun _ => rfl) fun _ => .pure _) fun reply => ?_
    cases reply with
    | failed => exact .pure _
    | pending | sync => exact .bind (.setFlags _) fun _ => .pure none

theorem Tender.setConnectResult (ok : Bool) : Tender (setConnectResult ok) := by
  refine .bind (.setFlags _) fun _ => ?_
  split
  · refine .bind (.setFlags _) fun _ => .bind .get fun s => ?_
    split
    · exact .readStart
    · exact .pure none
  · exact .pure none

end Tender

/-- What code of the user may rely on: the queue is locked, and neither touching the handle nor pushing a request
changes `W`. -/
structure Guarded (c : Course) (W : State → Prop) : Prop where
  locked : ∀ {s}, W s → 0 < s.locked
  owner : ∀ {s} owner, W s → owner.timedOut = s.owner.timedOut → W { s with owner }
  log : ∀ {s} note, W s → (∀ req, note ≠ .connectLeft req) → W (s.log (.own note))
  push : ∀ {s} req owner, W s → Unlinked s req → (req ≠ c.late → owner.timedOut c.late = s.owner.timedOut c.late) →
    W ((World.enqueue req { s with owner }).setAsync req true)

section User
variable {W : State → Prop} (guarded : Guarded c W) (keeping : Keeping c h)
  (user : ∀ s, W s → wp h.user (After c W) s)
  (wiped : ∀ s fpost, W s → (∀ t, Fulfilled c t → Keeps (Fulfilled c) fpost t) →
    wp (do note .resetCall; Queue.cancel h (pure ()) fpost none) (After c fun _ => False) s)

include guarded in
/-- A request that is pushed waits. -/
theorem push_after (kept : W s) {req : Req} (unlinked : Unlinked s req) {f : Handle → Handle}
    (flag : req ≠ c.late → (f s.owner).timedOut c.late = s.owner.timedOut c.late) :
    wp (pushWith h req f) (After c W) s := by
  have held : 0 < s.locked := guarded.locked kept
  simp only [pushWith, Queue.pushed, wp_bind, wp_modify, wp_get, next_done, wp_when]
  refine ⟨fun free => absurd free.2 (Nat.ne_of_gt held), fun _ => .back trivial ?_⟩
  exact guarded.push req (f s.owner) kept unlinked flag

include guarded in
theorem tender_after (kept : W s) (tender : Tender m) : wp m (After c W) s := by
  refine wp_mono (tender s) ?_
  rintro o t ⟨⟨value, rfl⟩, owner, rfl, same⟩
  exact .back trivial (guarded.owner owner kept same)

include wiped in
theorem noting_after (kept : W s) (clear : Bool) {fpost : Exec State Unit}
    (post : ∀ t, Fulfilled c t → Keeps (Fulfilled c) fpost t) :
    wp (noting clear (do note .resetCall; Queue.cancel h (pure ()) fpost none)) (After c W) s := by
  refine wp_attempt_after (W := fun _ => False) (wiped s fpost kept post) (fun _ _ never => never.elim)
    fun failed t fulfilled => ?_
  have noted : Fulfilled c _ := fulfilled.later (t := { t with owner := { t.owner with
    calls := ⟨clear, decide (t.owner.calls.length = s.owner.calls.length)⟩ :: t.owner.calls } }) [] rfl
  exact .modified (.when noted fun _ => .halt noted)

include guarded user wiped

private theorem runOp_after (op : Op) (kept : W s) : wp (runOp h op) (After c W) s := by
  have zeroed (flags : Handle → Flags) (setup : Handle → Setup) (t : State) (fulfilled : Fulfilled c t) :
      Keeps (Fulfilled c) (Exec.modify fun s => { s.log (.own (.zero s.requests)) with
        owner := { s.owner with flags := flags s.owner, wqSize := 0, setup := setup s.owner } }) t :=
    fulfilled.later [.own (.zero t.requests)] rfl
  have pushes {req : Req} {f : Handle → Handle}
    (flag : req ≠ c.late → (f s.owner).timedOut c.late = s.owner.timedOut c.late) :
      wp (when (Unlinked s req) (pushWith h req f)) (After c W) s :=
    wp_when.mpr ⟨fun unlinked => push_after guarded kept unlinked flag, fun _ => .back trivial kept⟩
  have fresh {f : ℕ → Req} (m : State) (kept : W m) (named : ∀ n, (f n).id = n) : wp (pushNew h f) (After c W) m :=
    push_after (f := id) guarded kept (freshId_unlinked m named) fun _ => rfl
  cases op with
  | connect name timeout => exact pushes (f := id) fun _ => rfl
  | write id bufs => exact pushes fun _ => rfl
  | shutdown id timeout => exact pushes fun different => Function.update_of_ne different.symm ..
  | runInOrder =>
    simp only [runOp, runInOrder, wp_bind, wp_get, next_done]
    split
    · exact user _ (guarded.log _ kept fun _ => (by rintro ⟨⟩))
    · exact fresh s kept fun _ => rfl
  | disconnect =>
    simp only [runOp, disconnect, wp_bind, wp_get, next_done]
    split
    · exact .back trivial (guarded.owner _ (guarded.log (.zero s.requests) kept fun _ => (by rintro ⟨⟩)) rfl)
    · split
      · exact noting_after wiped kept false (zeroed (fun o => { dontRead := o.flags.dontRead }) fun o => o.setup)
      · exact fresh s kept fun _ => rfl
  | reset => exact noting_after wiped kept false (zeroed (fun o => { dontRead := o.flags.dontRead }) fun o => o.setup)
  | clear => exact noting_after wiped kept true (zeroed (fun _ => {}) fun _ => {})
  | readStart => exact tender_after guarded kept (.bind (.setFlags _) fun _ => .bind .readStart fun _ => .pure ())
  | readStop => exact tender_after guarded kept (.setFlags _)
  | opened => exact tender_after guarded kept (.bind (.setConnectResult _) fun _ => .pure ())
  | accept filtered =>
    refine wp_tender (Tender.setFlags _) fun _ owner same => ?_
    have after := guarded.owner owner kept same
    split
    · exact fresh _ after fun _ => rfl
    · exact wp_tender (Tender.setConnectResult _) fun _ last same => user _ (guarded.owner last after same)

include keeping in
theorem user_after (kept : W s) : wp (Stream.user h) (After c W) s := by
  refine wp_tender Tender.nextAct fun act owner same => ?_
  have begun := guarded.owner owner kept same
  cases act with
  | ret => exact .back trivial begun
  | throw => exact .back rfl begun
  | stop => exact .stopped
  | op op =>
    refine wp_bind_after (runOp_after guarded user wiped op begun) (fun _ => id) (fun _ t kept => user t kept) ?_
    exact fun _ t fulfilled => (keeping.user (X := []) fulfilled).keeps

end User

end Timeout

end UniEvent.Stream
