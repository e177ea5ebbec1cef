import UniEvent.Proofs.StreamSteps

/-! # What the parts of a stream do to its queue

`Handled` is the effect of code that only touches the handle. `Appends` is the effect of user code on a
busy queue (locked or not empty) that neither resets nor clears it: requests are added at the end and
nothing else. If it does reset or clear, then the generation of cancels grows (`Canceled`), and a
connect whose completion was under way has been interrupted (`Disturbed`).
-/

namespace UniEvent.Stream

open Program Program.Exec

variable {s m t : State} {α β : Type} {notified : List Req} {c : Exec State Unit}

/-! ### Code that touches only the handle -/

/-- Only the handle changed, `_wq_size` did not, no timer was started, and the user may have acted. -/
def Handled (s t : State) : Prop :=
  ∃ owner : Handle, t = { s with owner } ∧ owner.wqSize = s.owner.wqSize ∧
    (∀ req, owner.connectTimer req = true → s.owner.connectTimer req = true) ∧
    (∀ req, owner.shutdownTimer req = true → s.owner.shutdownTimer req = true) ∧
    owner.script <:+ s.owner.script

theorem Handled.refl : Handled s s := ⟨s.owner, rfl, rfl, fun _ => id, fun _ => id, List.suffix_refl _⟩

theorem Handled.trans (first : Handled s m) (second : Handled m t) : Handled s t := by
  obtain ⟨owner, rfl, size, connect, shutdown, script⟩ := first
  obtain ⟨owner', rfl, size', connect', shutdown', script'⟩ := second
  exact ⟨owner', rfl, size'.trans size, fun req on => connect req (connect' req on),
    fun req on => shutdown req (shutdown' req on), script'.trans script⟩

theorem Handled.post (handled : Handled s t) (ctl : Ctl s) (value : α) : Post Own s (.done value) t := by
  obtain ⟨owner, rfl, size, connect, shutdown, _⟩ := handled
  exact ⟨.one (.own (.handle s owner size connect shutdown)), fun _ => .frame ctl rfl rfl rfl fun _ => Iff.rfl⟩

/-- A call that returns a value and only touches the handle. -/
def Local (c : Exec State α) : Prop := ∀ s, wp c (fun o t => (∃ value, o = .done value) ∧ Handled s t) s

theorem wp_local {c : Exec State β} {f : β → Exec State α} {Q : Outcome α → State → Prop} (first : Local c)
    (rest : ∀ value t, Handled s t → wp (f value) Q t) : wp (c >>= f) Q s := by
  rw [wp_bind]
  refine wp_mono (first s) ?_
  rintro o t ⟨⟨value, rfl⟩, handled⟩
  exact rest value t handled

theorem wp_update {f : Handle → Handle} {rest : Unit → Exec State α} {Q : Outcome α → State → Prop} :
    wp (update f >>= rest) Q s ↔ wp (rest ()) Q { s with owner := f s.owner } := by
  rw [wp_bind]
  exact Iff.rfl

theorem Local.pure (value : α) : Local (pure value : Exec State α) := fun _ => ⟨⟨value, rfl⟩, .refl⟩

theorem Local.bind {c : Exec State β} {f : β → Exec State α} (first : Local c) (rest : ∀ value, Local (f value)) :
    Local (c >>= f) := by
  intro s
  refine wp_local first fun value t handled => ?_
  exact wp_mono (rest value t) fun o u last => ⟨last.1, handled.trans last.2⟩

theorem Local.get : Local (Exec.get : Exec State State) := fun s => ⟨⟨s, rfl⟩, .refl⟩

theorem Local.update {f : Handle → Handle} (size : ∀ o, (f o).wqSize = o.wqSize)
    (connect : ∀ o req, (f o).connectTimer req = true → o.connectTimer req = true)
    (shutdown : ∀ o req, (f o).shutdownTimer req = true → o.shutdownTimer req = true)
    (script : ∀ o, (f o).script <:+ o.script) : Local (update f) :=
  fun s => ⟨⟨(), rfl⟩, f s.owner, rfl, size _, connect _, shutdown _, script _⟩

theorem Local.setFlags (f : Flags → Flags) : Local (setFlags f) :=
  .update (fun _ => rfl) (fun _ _ => id) (fun _ _ => id) fun _ => List.suffix_refl _

theorem Local.when {c : Prop} [Decidable c] {m : Exec State Unit} (inner : Local m) : Local (when c m) := by
  by_cases holds : c
  · simpa only [Exec.when, if_pos holds] using inner
  · simpa only [Exec.when, if_neg holds] using Local.pure ()

theorem Local.nextAct : Local nextAct :=
  .bind .get fun _ => .bind (.update (fun _ => rfl) (fun _ _ => id) (fun _ _ => id) fun _ => List.tail_suffix _)
    fun _ => .pure _

theorem Local.nextReply : Local nextReply :=
  .bind .get fun _ => .bind (.update (fun _ => rfl) (fun _ _ => id) (fun _ _ => id) fun _ => List.suffix_refl _)
    fun _ => .pure _

theorem Local.readStart : Local _readStart := by
  refine .bind .get fun s => ?_
  split
  · exact .pure none
  · refine .bind .nextReply fun reply => ?_
    split
    · exact .pure _
    · exact .bind (.setFlags _) fun _ => .pure none

theorem Local.setConnectResult (ok : Bool) : Local (setConnectResult ok) := by
  refine .bind (.setFlags _) fun _ => ?_
  split
  · refine .bind (.setFlags _) fun _ => .bind .get fun s => ?_
    split
    · exact .readStart
    · exact .pure none
  · exact .pure none

theorem Local.setShutdown (ok : Bool) : Local (setShutdown ok) :=
  .bind (.setFlags _) fun _ => .when (.setFlags _)

theorem Local.stopConnectTimer (req : Req) :
    Local (Stream.update fun o => { o with connectTimer := Function.update o.connectTimer req false }) := by
  refine .update (fun _ => rfl) (fun o other on => ?_) (fun _ _ => id) fun _ => List.suffix_refl _
  by_cases same : other = req
  · simp [same] at on
  · simpa [same] using on

theorem Local.stopShutdownTimer (req : Req) :
    Local (Stream.update fun o => { o with shutdownTimer := Function.update o.shutdownTimer req false }) := by
  refine .update (fun _ => rfl) (fun _ _ => id) (fun o other on => ?_) fun _ => List.suffix_refl _
  by_cases same : other = req
  · simp [same] at on
  · simpa [same] using on

theorem Local.setTimedOut (req : Req) (on : Bool) :
    Local (Stream.update fun o => { o with timedOut := Function.update o.timedOut req on }) :=
  .update (fun _ => rfl) (fun _ _ => id) (fun _ _ => id) fun _ => List.suffix_refl _

/-! ### The ghost note of a call -/

/-- What `noting` writes down when the call it is about, made in `s`, has come back in `t`. -/
def noted (clear : Bool) (s t : State) : State :=
  { t with owner := { t.owner with
      calls := ⟨clear, decide (t.owner.calls.length = s.owner.calls.length)⟩ :: t.owner.calls } }

theorem noted_handled (clear : Bool) (s t : State) : Handled t (noted clear s t) :=
  ⟨_, rfl, rfl, fun _ => id, fun _ => id, List.suffix_refl _⟩

theorem wp_noting {clear : Bool} {Q : Outcome Unit → State → Prop} (call : wp c Q s)
    (back : ∀ o t, Q o t → o.Returned → Q o (noted clear s t)) : wp (noting clear c) Q s := by
  simp only [noting, scopeGuard, wp_bind, wp_get, next_done, wp_attempt]
  refine wp_mono call ?_
  rintro (_ | why) t holds
  · exact back _ t holds trivial
  · cases why with
    | thrown => exact back _ t holds rfl
    | _ => exact holds

/-- The same for what holds when the call has come back, before and after the note. -/
theorem wp_noting_back {clear : Bool} {R R' : State → Prop} (call : wp c (fun o t => o.Returned → R t) s)
    (back : ∀ t, R t → R' (noted clear s t)) : wp (noting clear c) (fun o t => o.Returned → R' t) s := by
  simp only [noting, scopeGuard, wp_bind, wp_get, next_done, wp_attempt]
  refine wp_mono call ?_
  rintro (_ | why) t holds
  · exact fun _ => back t (holds trivial)
  · cases why with
    | thrown => exact fun _ => back t (holds rfl)
    | _ => exact fun returned => by cases returned

/-! ### Code that runs on a busy queue -/

/-- A queue whose front a `push` does not execute. -/
def Busy (s : State) : Prop := 0 < s.locked ∨ s.requests ≠ []

/-- The parked requests `notified` were handed to `notify` and the requests `completed` left the front
through `done`, both in order, while requests may have been added at the end; nothing else happened. No
run-in-order request leaves this way. -/
structure Effect (notified completed : List Req) (s t : State) : Prop where
  requests : ∃ new, completed ++ t.requests = s.requests ++ new ∧ pushes t.trace = new.reverse ++ pushes s.trace
  finalized : ∃ parked, notified ++ t.finalizedRequests = s.finalizedRequests ++ parked ∧ parked.Sublist completed
  dones : dones t.trace = completed.reverse ++ dones s.trace
  notifies : notifies t.trace = notified.reverse ++ notifies s.trace
  opens : openConnects t.trace = (openConnects s.trace).filter fun req => decide (req ∉ completed)
  till : t.cancelTill = s.cancelTill.filter fun req => decide (req ∉ completed)
  ordinary : ∀ req ∈ completed, req.isRunInOrder = false
  resets : resets t.trace = resets s.trace
  lefts : lefts t.trace = lefts s.trace
  locked : t.locked = s.locked
  gen : t.cancelGen = s.cancelGen

/-- The effect of code that only adds requests. -/
abbrev Appends (s t : State) : Prop := Effect [] [] s t

theorem Appends.of {n : List Req} (requests : t.requests = s.requests ++ n)
    (pushed : pushes t.trace = n.reverse ++ pushes s.trace) (finalized : t.finalizedRequests = s.finalizedRequests)
    (dones : dones t.trace = dones s.trace) (notifies : notifies t.trace = notifies s.trace)
    (opens : openConnects t.trace = openConnects s.trace) (till : t.cancelTill = s.cancelTill)
    (resets : resets t.trace = resets s.trace) (lefts : lefts t.trace = lefts s.trace) (locked : t.locked = s.locked)
    (gen : t.cancelGen = s.cancelGen) : Appends s t where
  requests := ⟨n, requests, pushed⟩
  finalized := ⟨[], by simpa using finalized, .refl _⟩
  dones := by simpa using dones
  notifies := by simpa using notifies
  opens := by simpa using opens
  till := by rw [till]; cases s.cancelTill <;> rfl
  ordinary := by simp
  resets := resets
  lefts := lefts
  locked := locked
  gen := gen

theorem Effect.refl : Effect [] [] s s :=
  Appends.of (n := []) (List.append_nil _).symm rfl rfl rfl rfl rfl rfl rfl rfl rfl rfl

theorem Appends.requests_eq (appends : Appends s t) : ∃ new, t.requests = s.requests ++ new := by
  obtain ⟨new, requests, _⟩ := appends.requests
  exact ⟨new, requests⟩

theorem Appends.opens_eq (appends : Appends s t) : openConnects t.trace = openConnects s.trace := by
  simpa using appends.opens

theorem Appends.till_eq (appends : Appends s t) : t.cancelTill = s.cancelTill := by
  rw [appends.till]
  cases s.cancelTill <;> rfl

theorem Effect.trans {notified notified' completed completed' : List Req} (first : Effect notified completed s m)
    (second : Effect notified' completed' m t) : Effect (notified ++ notified') (completed ++ completed') s t where
  requests := by
    obtain ⟨new, requests, pushed⟩ := first.requests
    obtain ⟨later, requests', pushed'⟩ := second.requests
    refine ⟨new ++ later, ?_, by rw [pushed', pushed, List.reverse_append, List.append_assoc]⟩
    rw [List.append_assoc, requests', ← List.append_assoc, requests, List.append_assoc]
  finalized := by
    obtain ⟨parked, finalized, within⟩ := first.finalized
    obtain ⟨later, finalized', within'⟩ := second.finalized
    refine ⟨parked ++ later, ?_, within.append within'⟩
    rw [List.append_assoc, finalized', ← List.append_assoc, finalized, List.append_assoc]
  dones := by rw [second.dones, first.dones, List.reverse_append, List.append_assoc]
  notifies := by rw [second.notifies, first.notifies, List.reverse_append, List.append_assoc]
  opens := by
    rw [second.opens, first.opens, List.filter_filter]
    exact List.filter_congr fun req _ => by simp [Bool.and_comm]
  till := by
    rw [second.till, first.till, Option.filter_filter]
    exact congrFun (congrArg _ (funext fun req => by simp)) _
  ordinary req member := (List.mem_append.mp member).elim (first.ordinary req) (second.ordinary req)
  resets := second.resets.trans first.resets
  lefts := second.lefts.trans first.lefts
  locked := second.locked.trans first.locked
  gen := second.gen.trans first.gen

theorem Appends.busy (appends : Appends s t) (busy : Busy s) : Busy t := by
  obtain ⟨new, requests⟩ := appends.requests_eq
  refine busy.imp (fun held => by rw [appends.locked]; exact held) fun some => ?_
  rw [requests]
  exact List.append_ne_nil_of_left_ne_nil some _

theorem Handled.appends (handled : Handled s t) : Appends s t := by
  obtain ⟨owner, rfl, _⟩ := handled
  exact .of (n := []) (List.append_nil _).symm rfl rfl rfl rfl rfl rfl rfl rfl rfl rfl

/-- The front of the queue stays as long as nothing was completed. -/
theorem Effect.front (effect : Effect notified [] s t) {req : Req} (atFront : s.requests.head? = some req) :
    t.requests.head? = some req := by
  obtain ⟨new, requests, _⟩ := effect.requests
  obtain ⟨rest, eq⟩ := List.head?_eq_some_iff.mp atFront
  rw [List.nil_append] at requests
  rw [requests, eq]
  rfl

/-- What waited behind the completed requests still does. -/
theorem Effect.behind {notified completed rest : List Req} (effect : Effect notified completed s t)
    (requests : s.requests = completed ++ rest) :
    ∃ new, t.requests = rest ++ new ∧ pushes t.trace = new.reverse ++ pushes s.trace := by
  obtain ⟨new, shape, pushed⟩ := effect.requests
  rw [requests, List.append_assoc] at shape
  exact ⟨new, List.append_cancel_left shape, pushed⟩

/-- The queue was canceled by `reset()` or `clear()`. -/
def Canceled (s t : State) : Prop := s.cancelGen < t.cancelGen ∧ resets s.trace < resets t.trace

/-- A connect completion that was under way has been interrupted. -/
def Disturbed (s t : State) : Prop := openConnects s.trace ≠ [] → ¬ ResetsClear t.trace

/-- The effect of user code on a busy queue, and of `cancel` handing parked requests to it. -/
def Rel (notified : List Req) (s t : State) : Prop := Effect notified [] s t ∨ (Canceled s t ∧ Disturbed s t)

/-- The effect of code that cancels requests. -/
def Drained (notified completed : List Req) (s t : State) : Prop := Effect notified completed s t ∨ Canceled s t

theorem lefts_mono (older : s.trace <:+ t.trace) : lefts s.trace ≤ lefts t.trace := older.sublist.countP_le

theorem resets_mono (older : s.trace <:+ t.trace) : resets s.trace ≤ resets t.trace :=
  older.sublist.countP_le

theorem Canceled.later (canceled : Canceled s m) (path : Path Own m t) : Canceled s t :=
  ⟨lt_of_lt_of_le canceled.1 (path_gen path), lt_of_lt_of_le canceled.2 (resets_mono (path_older path))⟩

theorem Disturbed.later (disturbed : Disturbed s m) (path : Path Own m t) : Disturbed s t :=
  fun opened clear => disturbed opened (clear.earlier (path_older path))

theorem Canceled.after {notified completed : List Req} (effect : Effect notified completed s m)
    (canceled : Canceled m t) : Canceled s t := ⟨effect.gen ▸ canceled.1, effect.resets ▸ canceled.2⟩

theorem Disturbed.after (effect : Effect notified [] s m) (disturbed : Disturbed m t) : Disturbed s t := by
  intro opened
  refine disturbed ?_
  rw [effect.opens]
  simpa using opened

/-- Two pieces of user code, the second one on the queue the first has left. -/
theorem Rel.trans {notified notified' : List Req} (first : Rel notified s m) (path : Path Own m t)
    (second : Effect notified [] s m → Rel notified' m t) : Rel (notified ++ notified') s t := by
  rcases first with effect | ⟨canceled, disturbed⟩
  · rcases second effect with later | ⟨canceled, disturbed⟩
    · exact .inl (effect.trans later)
    · exact .inr ⟨canceled.after effect, disturbed.after effect⟩
  · exact .inr ⟨canceled.later path, disturbed.later path⟩

theorem Effect.drained {notified notified' completed completed' : List Req} (first : Effect notified completed s m)
    (second : Drained notified' completed' m t) : Drained (notified ++ notified') (completed ++ completed') s t :=
  second.imp first.trans (Canceled.after first)

theorem Rel.drained (rel : Rel notified s t) : Drained notified [] s t :=
  rel.imp_right And.left

/-! ### Assertions -/

section Assertions
variable {o : Outcome α} {P : State → Prop}

/-- An assertion failed only after `reset()` or `clear()` was called. -/
def Firm (s : State) (o : Outcome α) (t : State) : Prop := o = .halt .aborted → resets s.trace < resets t.trace

theorem Firm.done (value : α) : Firm s (.done value) t := fun same => by cases same

theorem Firm.of_reset (called : resets s.trace < resets m.trace) (path : Path Own m t) : Firm s o t :=
  fun _ => lt_of_lt_of_le called (resets_mono (path_older path))

theorem Firm.after (path : Path Own s m) (firm : Firm m o t) : Firm s o t :=
  fun failed => lt_of_le_of_lt (resets_mono (path_older path)) (firm failed)

theorem Firm.halt {why : Halt} (firm : Firm s (.halt why : Outcome α) t) : Firm s (.halt why : Outcome β) t :=
  fun failed => firm (by cases failed; rfl)

/-- A call after which `P` holds when it returns, and which fails an assertion only after a `reset()`. -/
structure Yields (P : State → Prop) (s : State) (o : Outcome α) (t : State) : Prop where
  back : o.Returned → P t
  firm : Firm s o t

theorem Yields.done (value : α) (holds : P t) : Yields P s (.done value) t :=
  ⟨fun _ => holds, .done value⟩

/-- A call that does not return, for another reason than an assertion. -/
theorem Yields.lost {why : Halt} (lost : why ≠ .thrown) (other : why ≠ .aborted) :
    Yields P s (.halt why : Outcome α) t :=
  ⟨fun returned => (lost returned).elim, fun failed => (other (Outcome.halt.inj failed)).elim⟩

theorem Yields.after {P Q : State → Prop} (path : Path Own s m) (yields : Yields P m o t) (weaker : P t → Q t) :
    Yields Q s o t :=
  ⟨fun returned => weaker (yields.back returned), yields.firm.after path⟩

theorem wp_attempt_yields (first : wp c (Yields P s) m) : wp (attempt c) (Yields P s) m := by
  rw [wp_attempt]
  refine wp_mono first ?_
  rintro (_ | why) t yields
  · exact .done false (yields.back trivial)
  · cases why with
    | thrown => exact .done true (yields.back rfl)
    | stopped | exhausted => exact .lost nofun nofun
    | aborted => exact ⟨fun returned => (by cases returned), fun _ => yields.firm rfl⟩

/-- Sequencing two pieces of user code, the second one on the queue the first has left if nobody canceled. -/
theorem Rel.yields {notified notified' : List Req} (first : Rel notified s m) (path : Path Own s m)
    (last : Path Own m t) (second : Effect notified [] s m → Yields (Rel notified' m) m o t) :
    Yields (Rel (notified ++ notified') s) s o t := by
  rcases first with effect | ⟨canceled, disturbed⟩
  · exact .after path (second effect) fun rel => Rel.trans (.inl effect) last fun _ => rel
  · exact ⟨fun _ => .inr ⟨canceled.later last, disturbed.later last⟩, .of_reset canceled.2 last⟩

end Assertions

end UniEvent.Stream
