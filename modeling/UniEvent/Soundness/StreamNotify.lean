import UniEvent.Proofs.StreamRun

/-! # Every request is notified once

The user hears of a connect, write or shutdown request through `notify_on_connect`, `notify_on_write` or
`notify_on_shutdown`. Four paths lead there: the closure of `done` run at once, the same closure run by
the loop, `notify` called by a cancel, and the pre step of a failing connect. `Delivery` says that
`done` is only ever entered with the request at the front, that each notification is the first one
since its request was pushed, and that on an empty queue nothing is owed.

The ledger holds in every run. What can go wrong is the completion of a connect: `on_establish`, or a
parked callback that the connect's own cancel hands over before its pre step, may call `reset()`, which
completes the same connect. The completion under way then enters `done` a second time.
-/

namespace UniEvent.Stream

open Program Program.Exec

/-- The requests the user is notified of. -/
def Req.hasEvent : Req → Bool
  | .connect _ _ | .write _ _ | .shutdown _ _ => true
  | .disconnect _ | .accept _ | .runInOrder _ => false

/-- What the user has to be told when the request leaves. -/
def Req.told (req : Req) : Option Req := if req.hasEvent = true then some req else none

/-- The request of which a closure notifies the user. -/
def Fn.notified? : Fn → Option Req
  | .notifyOn req _ => some req
  | .reset | .code _ | .nothing => none

/-- The request of which an event notifies the user. -/
def notification? : Event Req Fn Note → Option Req
  | .finish _ f _ | .fire _ f => f.notified?
  | .notify req _ => req.told
  | _ => none

def notifications (trace : List (Event Req Fn Note)) : List Req := trace.filterMap notification?

/-- How often the user was notified of a request since it was last pushed. -/
def sincePush : List (Event Req Fn Note) → Req → ℕ
  | [], _ => 0
  | .push other :: before, req => if other = req then 0 else sincePush before req
  | e :: before, req => sincePush before req + if notification? e = some req then 1 else 0

/-- `done` is entered with the request at the front of `requests`. -/
def DoneFrontAt : Event Req Fn Note → List (Event Req Fn Note) → Prop
  | .done check requests, _ => requests.head? = some check
  | _, _ => True

instance (e : Event Req Fn Note) (before : List (Event Req Fn Note)) : Decidable (DoneFrontAt e before) := by
  apply Event.casesOn (motive := fun e => Decidable (DoneFrontAt e before)) <;> intros <;>
    unfold DoneFrontAt <;> infer_instance

/-- A notification is the first since its request was pushed. -/
def FirstSincePushAt (e : Event Req Fn Note) (before : List (Event Req Fn Note)) : Prop :=
  ∀ req ∈ notification? e, req ∈ pushes before ∧ sincePush before req = 0

structure Delivery (s : State) : Prop where
  front : Along DoneFrontAt s.trace
  once : Along FirstSincePushAt s.trace
  all : s.requests = [] → s.finalizedRequests = [] → ∀ req, req.hasEvent = true →
    (notifications s.trace).count req = (pushes s.trace).count req

/-! ### The ledger -/

/-- Every push is either settled by a notification or the request is still linked. -/
structure Ledger (linked : List Req) (trace : List (Event Req Fn Note)) : Prop where
  balance : ∀ req, req.hasEvent = true →
    (pushes trace).count req = (notifications trace).count req + linked.count req
  pending : ∀ req ∈ linked, req.hasEvent = true → req ∈ pushes trace ∧ sincePush trace req = 0
  once : Along FirstSincePushAt trace

section Ledger
variable {linked rest : List Req} {trace : List (Event Req Fn Note)} {e : Event Req Fn Note} {req : Req}

theorem pushes_other (other : e.pushed? = none) : pushes (e :: trace) = pushes trace := by
  simp [pushes, other]

private theorem notifications_cons : notifications (e :: trace) = (notification? e).toList ++ notifications trace := by
  rw [notifications, List.filterMap_cons]
  cases notification? e <;> rfl

private theorem sincePush_other (other : e.pushed? = none) (req : Req) :
    sincePush (e :: trace) req = sincePush trace req + if notification? e = some req then 1 else 0 := by
  cases e with
  | push => cases other
  | _ => rfl

/-- An event that is neither a push nor a notification. -/
theorem Ledger.quiet (ledger : Ledger linked trace) (other : e.pushed? = none) (silent : notification? e = none) :
    Ledger linked (e :: trace) where
  balance req kind := by simpa [pushes_other other, notifications_cons, silent] using ledger.balance req kind
  pending req member kind := by
    simpa [pushes_other other, sincePush_other other, silent] using ledger.pending req member kind
  once := (along_cons ..).mpr ⟨by simp [FirstSincePushAt, silent], ledger.once⟩

theorem Ledger.push (ledger : Ledger linked trace) : Ledger (linked ++ [req]) (.push req :: trace) where
  balance other kind := by
    have before := ledger.balance other kind
    simp only [pushes, notifications] at before
    simp only [pushes, notifications, List.filterMap_cons, Event.pushed?, notification?, List.count_cons,
      List.count_append, List.count_nil, before]
    omega
  pending other member kind := by
    by_cases same : req = other
    · simp [pushes, Event.pushed?, sincePush, same]
    · have before := ledger.pending other (by simpa [Ne.symm same] using member) kind
      refine ⟨?_, by simpa [sincePush, same] using before.2⟩
      exact List.mem_cons_of_mem _ before.1
  once := (along_cons ..).mpr ⟨by simp [FirstSincePushAt, notification?], ledger.once⟩

/-- A linked request leaves with the notification it is owed. -/
theorem Ledger.settle (ledger : Ledger linked trace) (leaves : linked.Perm (req :: rest)) (absent : req ∉ rest)
    (other : e.pushed? = none) (told : notification? e = req.told) :
    Ledger rest (e :: trace) := by
  refine ⟨fun one kind => ?_, fun one member kind => ?_, (along_cons ..).mpr ⟨fun one isOne => ?_, ledger.once⟩⟩
  · have before := ledger.balance one kind
    rw [leaves.count_eq, List.count_cons] at before
    rw [pushes_other other, before, notifications_cons, told, Req.told, List.count_append]
    by_cases same : req = one
    · subst same
      simp [kind]
      omega
    · by_cases event : req.hasEvent = true <;> simp [same, event]
  · have before := ledger.pending one (leaves.mem_iff.mpr (List.mem_cons_of_mem _ member)) kind
    have same : req ≠ one := fun same => absent (same ▸ member)
    rw [pushes_other other, sincePush_other other, told, Req.told]
    by_cases event : req.hasEvent = true <;> simpa [event, same] using before
  · rw [told, Req.told] at isOne
    by_cases event : req.hasEvent = true
    · obtain rfl : req = one := by simpa [event] using isOne
      exact ledger.pending req (leaves.mem_iff.mpr (List.mem_cons_self ..)) event
    · simp [event] at isOne

end Ledger

/-! ### Runs -/

variable {s t : State} {req : Req} {f : Fn}

/-- The closures handed to `done` notify the user of the request that leaves. -/
theorem Closes.notified (closes : Closes req f) : f.notified? = req.told := by
  cases req with
  | connect | write | shutdown =>
    obtain ⟨err, rfl⟩ := closes
    rfl
  | disconnect => rcases closes with rfl | rfl <;> rfl
  | accept | runInOrder =>
    obtain rfl := closes
    rfl

abbrev Accounts (s : State) : Prop := Ledger (s.finalizedRequests ++ s.requests) s.trace

theorem Move.accounts (moved : Move s t) (ledger : Accounts s) : Accounts t := by
  cases moved with
  | enqueue req owner unlinked _ _ _ =>
    change Ledger (s.finalizedRequests ++ (s.requests ++ [req])) _
    rw [← List.append_assoc]
    exact ledger.push
  | handle | arm | activate | deactivate | delayCancel => exact ledger
  | _ => exact ledger.quiet rfl rfl

theorem Step.accounts (step : Step Own s t) (wf : Wf s) (parked : Parked s) (ledger : Accounts s) : Accounts t := by
  cases step with
  | own moved => exact moved.accounts ledger
  | finish req f atFront fits async =>
    obtain ⟨rest, requests⟩ := List.head?_eq_some_iff.mp atFront
    have absent : req ∉ s.finalizedRequests ++ s.requests.tail := by simp [wf.not_mem_tail atFront]
    have leaves : (s.finalizedRequests ++ s.requests).Perm (req :: (s.finalizedRequests ++ s.requests.tail)) := by
      rw [requests]
      exact List.perm_middle
    exact (ledger.quiet (e := .done req s.requests) rfl rfl).settle leaves absent rfl (Fits.closes fits).notified
  | park req f split atFront fits why =>
    obtain ⟨rest, requests⟩ := List.head?_eq_some_iff.mp atFront
    change Ledger ((s.finalizedRequests ++ [req]) ++ s.requests.tail) (.done req s.requests :: s.trace)
    rw [Accounts, requests] at ledger
    simpa [requests] using ledger.quiet (e := .done req (req :: rest)) rfl rfl
  | flush req err atFront =>
    obtain ⟨eq, absent⟩ := wf.parked_front atFront
    rw [Accounts, eq] at ledger
    exact ledger.settle (.refl _) absent rfl rfl
  | unpark req f split rest next atFront =>
    obtain ⟨eq, absent⟩ := wf.parked_front atFront
    rw [Accounts, eq] at ledger
    exact ledger.settle (.refl _) absent rfl (parked req f split (next ▸ List.mem_cons_self ..)).notified
  | control | retry => exact ledger
  | exec | refuse | cancel | rest | skip => exact ledger.quiet rfl rfl
  | restart => exact (ledger.quiet rfl rfl).quiet rfl rfl

/-- `done` is entered with another request than the front only after a connect was interrupted. -/
theorem Step.doneFront (step : Step Own s t) (clear : ResetsClear s.trace) (front : Along DoneFrontAt s.trace) :
    Along DoneFrontAt t.trace := by
  cases step with
  | own moved =>
    cases moved with
    | handle | arm | activate | deactivate | delayCancel => exact front
    | _ => exact ⟨trivial, front⟩
  | refuse check other lost => exact (lost clear).elim
  | finish req f atFront fits async => exact ⟨trivial, atFront, front⟩
  | park req f split atFront fits why => exact ⟨atFront, front⟩
  | control | retry => exact front
  | exec | flush | unpark | cancel | rest | skip => exact ⟨trivial, front⟩
  | restart => exact ⟨trivial, trivial, front⟩

theorem run_accounts (ts : List Turn) : Accounts (run ts initial).2 := by
  refine run_invariant (I := Accounts) (fun _ _ step => Step.accounts step) ⟨fun _ _ => rfl, ?_, trivial⟩ ts
  simp [initial, World.initial]

/-- If no `reset()` or `clear()` interrupts the completion of a connect, then `done` is only entered with
the front of the queue, and every push is notified exactly once. -/
theorem run_delivers (ts : List Turn) (clear : ResetsClear (run ts initial).2.trace) : Delivery (run ts initial).2 := by
  have ledger := run_accounts ts
  refine ⟨?_, ledger.once, fun empty unparked req kind => ?_⟩
  · refine (run_path ts).invariant (I := fun s => ResetsClear s.trace → Along DoneFrontAt s.trace) ?_
      (fun _ => trivial) clear
    intro s t step before clear
    have earlier := clear.earlier (step.older fun _ _ => Move.older)
    exact Step.doneFront step earlier (before earlier)
  · have balance := ledger.balance req kind
    rw [empty, unparked] at balance
    exact balance.symm

/-- A connect is canceled by `reset()` together with the write behind it. -/
def canceledConnect : List Turn :=
  [{ depth := 9, task := .op (.connect 1 0) }, { depth := 9, task := .op (.write 2 [5]) },
   { depth := 9, task := .op .reset }]

theorem canceledConnect_delivers :
    notifications (run canceledConnect initial).2.trace = [.write 2 [5], .connect 1 0] ∧
      Delivery (run canceledConnect initial).2 :=
  ⟨by decide, run_delivers canceledConnect (by decide)⟩

/-- The callback of a write is parked while a connect is tried; the connect fails, its cancel hands the
write to the user, who calls `reset()`. -/
def interruptedConnect : List Turn :=
  [{ depth := 9, task := .op .opened },
   { depth := 9, replies := [.sync none], task := .op (.write 1 [5]) },
   { depth := 9, task := .op (.connect 2 0) },
   { depth := 9, script := [.ret, .op .reset], task := .complete (.connect 2 0) (some (.other 111)) }]

theorem interruptedConnect_not_delivered : ¬ Delivery (run interruptedConnect initial).2 := by
  intro delivery
  exact absurd delivery.front (by decide)

end UniEvent.Stream
