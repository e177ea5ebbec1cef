import Mathlib.Data.Nat.Basic
import UniEvent.Model.Queue

/-! # What one move of a queue can do

`Step Own s t` lists the moves queue code can make, each with the facts that hold when it is made;
`Own` says what the owner of the queue contributes. A whole call is a `Path` of such moves, so an invariant is proved
once for every move and then holds along every run, however deeply callbacks are nested.

`Wf` is the shape of a queue that all moves keep: chains are disjoint, only the front request can
have been executed, parked requests are exactly those whose delayed callback is scheduled, and only
the executed front can still be reported on.
-/

namespace UniEvent

variable {ρ φ η ε : Type} {s t : World ρ φ η ε}

section Trace
variable [DecidableEq ρ]

/-- How often `exec` has been called on a request since it was last pushed. -/
def execs : List (Event ρ φ η) → ρ → ℕ
  | [], _ => 0
  | .push other :: rest, req => if other = req then 0 else execs rest req
  | .exec other _ :: rest, req => if other = req then execs rest req + 1 else execs rest req
  | _ :: rest, req => execs rest req

end Trace

/-- The request an event pushes. -/
def Event.pushed? : Event ρ φ η → Option ρ
  | .push req => some req
  | _ => none

/-- The request `done` is entered with. -/
def Event.done? : Event ρ φ η → Option ρ
  | .done check _ => some check
  | _ => none

/-- The parked request that `cancel` notifies. -/
def Event.notified? : Event ρ φ η → Option ρ
  | .notify req _ => some req
  | _ => none

/-- The requests pushed, completed and notified by `cancel`, newest first. -/
def pushes (trace : List (Event ρ φ η)) : List ρ := trace.filterMap Event.pushed?

def dones (trace : List (Event ρ φ η)) : List ρ := trace.filterMap Event.done?

def notifies (trace : List (Event ρ φ η)) : List ρ := trace.filterMap Event.notified?

/-- The request a delayed completion belongs to. -/
@[simp] def Delayed.parked? : Delayed ρ φ → Option ρ
  | .finalize req _ _ => some req
  | .cancel _ _ => none

namespace World
variable [DecidableEq ρ]

/-- The request has been executed since it was last pushed. -/
def Started (s : World ρ φ η ε) (req : ρ) : Prop := 0 < execs s.trace req

/-- No waiting request has been executed. -/
def Fresh (s : World ρ φ η ε) : Prop := ∀ req ∈ s.requests, ¬ s.Started req

end World

structure Wf [DecidableEq ρ] (s : World ρ φ η ε) : Prop where
  nodup : (s.finalizedRequests ++ s.requests).Nodup
  front : ∀ req ∈ s.requests, s.Started req → s.requests.head? = some req
  parked : s.delayed.filterMap Delayed.parked? = s.finalizedRequests
  retry : ∀ req err, .cancel req err ∈ s.delayed → s.requests.head? = some req ∧ s.Started req
  backend : ∀ req, s.active req = true → s.requests.head? = some req ∧ s.Started req

/-- What a queue may expect of the code around it. -/
structure Owner (ρ φ η ε : Type) where
  /-- The moves the owner makes itself, in particular appending a request. -/
  Moves : World ρ φ η ε → World ρ φ η ε → Prop
  /-- The closures with which the owner calls `done` on the front request, and when. -/
  Fits : World ρ φ η ε → ρ → φ → Prop
  /-- When the owner may call `done` on a request that is not at the front. -/
  Lost : World ρ φ η ε → ρ → Prop

/-- The moves of queue code and of its owner. -/
inductive Step [DecidableEq ρ] (Own : Owner ρ φ η ε) :
    World ρ φ η ε → World ρ φ η ε → Prop
  | own {s t : World ρ φ η ε} (moved : Own.Moves s t) : Step Own s t
  /-- Counters, the cancel mark and `async` flags. -/
  | control (s : World ρ φ η ε) (locked cancelGen resumeRecursion : ℕ) (cancelTill : Option ρ)
      (async : ρ → Bool) (later : s.cancelGen ≤ cancelGen) :
      Step Own s { s with locked, cancelGen, resumeRecursion, cancelTill, async }
  | exec (s : World ρ φ η ε) (req : ρ) (atFront : s.requests.head? = some req) (free : s.locked = 0)
      (fresh : s.Fresh) : Step Own s (s.log (.exec req s.requests))
  /-- `done` is entered with a request that is not at the front; the assertion fails. -/
  | refuse (s : World ρ φ η ε) (check : ρ) (other : s.requests.head? ≠ some check) (lost : Own.Lost s check) :
      Step Own s (s.log (.done check s.requests))
  /-- `done` removes the front and runs its closure under the lock. -/
  | finish (s : World ρ φ η ε) (req : ρ) (f : φ) (atFront : s.requests.head? = some req)
      (fits : Own.Fits s req f) (async : s.async req = true) :
      Step Own s ((((s.log (.done req s.requests)).retire req).lock).log
        (.finish req f s.finalizedRequests))
  /-- `done` removes the front and delays its closure. -/
  | park (s : World ρ φ η ε) (req : ρ) (f : φ) (split : Bool) (atFront : s.requests.head? = some req)
      (fits : Own.Fits s req f) (why : split = true ∨ s.async req = false) :
      Step Own s (((s.log (.done req s.requests)).retire req).park req f split)
  /-- `cancel` takes over a parked request. -/
  | flush (s : World ρ φ η ε) (req : ρ) (err : Err) (atFront : s.finalizedRequests.head? = some req) :
      Step Own s (s.flush req err)
  /-- The loop runs a delayed completion. -/
  | unpark (s : World ρ φ η ε) (req : ρ) (f : φ) (split : Bool) (rest : List (Delayed ρ φ))
      (next : s.delayed = .finalize req f split :: rest) (atFront : s.finalizedRequests.head? = some req) :
      Step Own s (s.unpark req f)
  /-- The loop runs a delayed cancellation. -/
  | retry (s : World ρ φ η ε) (req : ρ) (err : Err) (rest : List (Delayed ρ φ))
      (next : s.delayed = .cancel req err :: rest) :
      Step Own s { s with delayed := rest }
  | cancel (s : World ρ φ η ε) (req : ρ) (atFront : s.requests.head? = some req) :
      Step Own s (s.log (.cancel req))
  /-- A split callback ends on an empty queue. -/
  | rest (s : World ρ φ η ε) (empty : s.requests = []) : Step Own s (s.log (.resume s.requests))
  /-- A split callback ends and executes the front, without asking whether that has happened. -/
  | restart (s : World ρ φ η ε) (req : ρ) (atFront : s.requests.head? = some req) (free : s.locked = 0) :
      Step Own s ((s.log (.resume s.requests)).log (.exec req s.requests))
  | skip (s : World ρ φ η ε) : Step Own s (s.log (.skip s.requests s.splitPending))

/-- A finite sequence of moves, none of them made with fewer locks than at the start: calls nest. -/
def Path [DecidableEq ρ] (Own : Owner ρ φ η ε) (s : World ρ φ η ε) : World ρ φ η ε → Prop :=
  Relation.ReflTransGen (fun m t => Step Own m t ∧ s.locked ≤ m.locked) s

section Path
variable [DecidableEq ρ] {Own : Owner ρ φ η ε} {m : World ρ φ η ε}

theorem Path.refl : Path Own s s := Relation.ReflTransGen.refl

theorem Path.one (step : Step Own s t) : Path Own s t := Relation.ReflTransGen.single ⟨step, le_rfl⟩

theorem Path.tail (path : Path Own s m) (above : s.locked ≤ m.locked) (step : Step Own m t) : Path Own s t :=
  Relation.ReflTransGen.tail path ⟨step, above⟩

/-- A path of a nested call, or of a call made in its place, continues a path. -/
theorem Path.then (path : Path Own s m) (above : s.locked ≤ m.locked) (next : Path Own m t) : Path Own s t := by
  induction next with
  | refl => exact path
  | tail _ step ih => exact Relation.ReflTransGen.tail ih ⟨step.1, le_trans above step.2⟩

theorem Path.invariant {I : World ρ φ η ε → Prop} (kept : ∀ s t, Step Own s t → I s → I t)
    (path : Path Own s t) (holds : I s) : I t := by
  induction path with
  | refl => exact holds
  | tail _ step ih => exact kept _ _ step.1 ih

/-- Under a lock only what moves do under a lock matters. -/
theorem Path.invariant_locked {I : World ρ φ η ε → Prop} (held : 0 < s.locked)
    (kept : ∀ m t, Step Own m t → 0 < m.locked → I m → I t) (path : Path Own s t) (holds : I s) : I t := by
  induction path with
  | refl => exact holds
  | tail _ step ih => exact kept _ _ step.1 (Nat.lt_of_lt_of_le held step.2) ih

end Path

/-- The trace only grows. -/
theorem Step.older [DecidableEq ρ] {Own : Owner ρ φ η ε} (own : ∀ s t, Own.Moves s t → s.trace <:+ t.trace)
    (step : Step Own s t) : s.trace <:+ t.trace := by
  cases step with
  | own moved => exact own s t moved
  | control => exact List.suffix_refl _
  | exec => exact List.suffix_cons _ _
  | refuse => exact List.suffix_cons _ _
  | finish => exact (List.suffix_cons _ _).trans (List.suffix_cons _ _)
  | park => exact List.suffix_cons _ _
  | flush => exact List.suffix_cons _ _
  | unpark => exact List.suffix_cons _ _
  | retry => exact List.suffix_refl _
  | cancel => exact List.suffix_cons _ _
  | rest => exact List.suffix_cons _ _
  | restart => exact (List.suffix_cons _ _).trans (List.suffix_cons _ _)
  | skip => exact List.suffix_cons _ _

/-- The generation of cancels only grows. -/
theorem Step.gen [DecidableEq ρ] {Own : Owner ρ φ η ε} (own : ∀ s t, Own.Moves s t → s.cancelGen ≤ t.cancelGen)
    (step : Step Own s t) : s.cancelGen ≤ t.cancelGen := by
  cases step with
  | own moved => exact own s t moved
  | control _ _ _ _ _ later => exact later
  | _ => exact le_rfl

theorem Path.gen [DecidableEq ρ] {Own : Owner ρ φ η ε} (own : ∀ s t, Own.Moves s t → s.cancelGen ≤ t.cancelGen)
    (path : Path Own s t) : s.cancelGen ≤ t.cancelGen :=
  path.invariant (I := fun m => s.cancelGen ≤ m.cancelGen) (fun _ _ step grown => le_trans grown (step.gen own))
    le_rfl

theorem Path.older [DecidableEq ρ] {Own : Owner ρ φ η ε} (own : ∀ s t, Own.Moves s t → s.trace <:+ t.trace)
    (path : Path Own s t) : s.trace <:+ t.trace :=
  path.invariant (I := fun m => s.trace <:+ m.trace) (fun _ _ step older => older.trans (step.older own))
    (List.suffix_refl _)

section Wf
variable [DecidableEq ρ] {req other : ρ}

@[simp] theorem execs_push (rest : List (Event ρ φ η)) (other req : ρ) :
    execs (.push other :: rest) req = if other = req then 0 else execs rest req := rfl

@[simp] theorem execs_exec (rest : List (Event ρ φ η)) (other req : ρ) (requests : List ρ) :
    execs (.exec other requests :: rest) req =
      if other = req then execs rest req + 1 else execs rest req := rfl

theorem Wf.front_eq (wf : Wf s) (atFront : s.requests.head? = some req) (member : other ∈ s.requests)
    (started : s.Started other) : other = req :=
  Option.some.inj ((wf.front other member started).symm.trans atFront)

/-- A removed front does not occur among the requests behind it or among the parked ones. -/
theorem Wf.not_mem_tail (wf : Wf s) (atFront : s.requests.head? = some req) :
    req ∉ s.requests.tail ∧ req ∉ s.finalizedRequests := by
  obtain ⟨rest, requests⟩ := List.head?_eq_some_iff.mp atFront
  have unique := wf.nodup
  rw [requests, List.nodup_append] at unique
  refine ⟨?_, ?_⟩
  · simpa only [requests, List.tail_cons] using (List.nodup_cons.mp unique.2.1).1
  · exact fun parked => unique.2.2 req parked req (List.mem_cons_self ..) rfl

/-- The oldest parked request leaves the rest of both chains as it is. -/
theorem Wf.parked_front (wf : Wf s) (atFront : s.finalizedRequests.head? = some req) :
    s.finalizedRequests ++ s.requests = req :: (s.finalizedRequests.tail ++ s.requests) ∧
      req ∉ s.finalizedRequests.tail ++ s.requests := by
  obtain ⟨later, parked⟩ := List.head?_eq_some_iff.mp atFront
  have unique := wf.nodup
  rw [parked, List.cons_append, List.nodup_cons] at unique
  rw [parked]
  exact ⟨rfl, unique.1⟩

/-- Behind the front nothing has been executed. -/
theorem Wf.tail_fresh (wf : Wf s) (atFront : s.requests.head? = some req) :
    ∀ other ∈ s.requests.tail, ¬ s.Started other := by
  intro other member started
  have same := wf.front_eq atFront (List.mem_of_mem_tail member) started
  exact (wf.not_mem_tail atFront).1 (same ▸ member)

private theorem parked_filter (delayed : List (Delayed ρ φ)) (req : ρ)
    (absent : req ∉ delayed.filterMap Delayed.parked?) :
    (delayed.filter fun d => decide (d.req ≠ req)).filterMap Delayed.parked? =
      delayed.filterMap Delayed.parked? := by
  induction delayed with
  | nil => rfl
  | cons d rest ih =>
    cases d with
    | finalize other f split =>
      simp only [Delayed.parked?, List.filterMap_cons, List.mem_cons, not_or] at absent
      have kept : other ≠ req := fun same => absent.1 same.symm
      simp [kept, ← ih absent.2]
    | cancel other err =>
      have rest := ih (by simpa only [List.filterMap_cons, Delayed.parked?] using absent)
      by_cases same : other = req <;> simpa [List.filterMap_cons, same] using rest

private theorem filter_parked_head {delayed : List (Delayed ρ φ)} {req : ρ} {rest : List ρ}
    (whole : delayed.filterMap Delayed.parked? = req :: rest) (absent : req ∉ rest) :
    (delayed.filter fun d => decide (d.req ≠ req)).filterMap Delayed.parked? = rest := by
  induction delayed with
  | nil => simp at whole
  | cons d later ih =>
    cases d with
    | finalize other f split =>
      simp only [List.filterMap_cons, Delayed.parked?, List.cons.injEq] at whole
      obtain ⟨same, tail⟩ := whole
      have kept := parked_filter later req (by rw [tail]; exact absent)
      simpa [same, tail] using kept
    | cancel other err =>
      have later := ih (by simpa only [List.filterMap_cons, Delayed.parked?] using whole)
      by_cases same : other = req <;> simpa [List.filterMap_cons, same] using later

/-- After `done` has removed the front, nothing refers to it any more. -/
theorem Wf.retire (wf : Wf s) (atFront : s.requests.head? = some req) :
    (∀ d ∈ (s.retire req).delayed, ∃ other f split, d = .finalize other f split) ∧
      (s.retire req).delayed.filterMap Delayed.parked? = s.finalizedRequests ∧
      ∀ other, (s.retire req).active other = false := by
  refine ⟨?_, ?_, ?_⟩
  · intro d member
    obtain ⟨present, kept⟩ := List.mem_filter.mp member
    cases d with
    | finalize other f split => exact ⟨other, f, split, rfl⟩
    | cancel other err =>
      have same := Option.some.inj ((wf.retry other err present).1.symm.trans atFront)
      simp [Delayed.req, same] at kept
  · rw [← wf.parked]
    exact parked_filter _ _ (wf.parked ▸ (wf.not_mem_tail atFront).2)
  · intro other
    by_cases same : other = req
    · simp [World.retire, World.finishExec, same]
    · have idle : s.active other ≠ true := fun active =>
        same (Option.some.inj ((wf.backend other active).1.symm.trans atFront))
      simpa [World.retire, World.finishExec, same] using idle

/-- An event that is neither a push nor an execution. -/
def Event.Plain : Event ρ φ η → Prop
  | .push _ | .exec _ _ => False
  | _ => True

omit [DecidableEq ρ] in
@[simp] theorem Event.plain_own (note : η) : (Event.own note : Event ρ φ η).Plain := trivial

private theorem execs_plain {e : Event ρ φ η} (plain : e.Plain) (rest : List (Event ρ φ η)) (req : ρ) :
    execs (e :: rest) req = execs rest req := by
  cases e <;> first | rfl | exact plain.elim

@[simp] theorem World.log_started (s : World ρ φ η ε) {e : Event ρ φ η} (plain : e.Plain) (req : ρ) :
    (s.log e).Started req ↔ s.Started req := by
  simp only [World.Started, World.log, execs_plain plain]

theorem Wf.log (wf : Wf s) {e : Event ρ φ η} (plain : e.Plain) : Wf (s.log e) where
  nodup := wf.nodup
  front other member started := wf.front other member ((s.log_started plain other).mp started)
  parked := wf.parked
  retry other err member :=
    (wf.retry other err member).imp_right (s.log_started plain other).mpr
  backend other active :=
    (wf.backend other active).imp_right (s.log_started plain other).mpr

/-- Removing the front keeps the shape, whether or not the request is then parked. -/
theorem Wf.retired (wf : Wf s) (atFront : s.requests.head? = some req) : Wf (s.retire req) where
  nodup := wf.nodup.sublist (List.Sublist.append_left (List.tail_sublist _) _)
  front other member started := (wf.tail_fresh atFront other member started).elim
  parked := (wf.retire atFront).2.1
  retry other err member := by
    obtain ⟨_, _, _, absurd⟩ := (wf.retire atFront).1 _ member
    cases absurd
  backend other active := by
    rw [(wf.retire atFront).2.2 other] at active
    cases active

private theorem Wf.retired_park (wf : Wf s) (atFront : s.requests.head? = some req) (f : φ)
    (split : Bool) : Wf ((s.retire req).park req f split) := by
  have absent := wf.not_mem_tail atFront
  have retired := wf.retired atFront
  have kept : ((s.retire req).delayCancel req).delayed.filterMap Delayed.parked? = s.finalizedRequests := by
    have same : (s.retire req).delayed.filterMap Delayed.parked? = s.finalizedRequests := (wf.retire atFront).2.1
    rw [← same]
    exact parked_filter _ _ (same ▸ absent.2)
  refine ⟨?_, ?_, ?_, ?_, ?_⟩
  · change ((s.finalizedRequests ++ [req]) ++ s.requests.tail).Nodup
    obtain ⟨rest, requests⟩ := List.head?_eq_some_iff.mp atFront
    simpa only [requests, List.tail_cons, List.append_assoc, List.singleton_append] using wf.nodup
  · exact fun other member started => (wf.tail_fresh atFront other member started).elim
  · change List.filterMap Delayed.parked? (((s.retire req).delayCancel req).delayed ++ [_]) =
      s.finalizedRequests ++ [req]
    rw [List.filterMap_append, kept]
    rfl
  · intro other err member
    rcases List.mem_append.mp member with old | new
    · exact retired.retry other err (List.mem_filter.mp old).1
    · simp at new
  · exact retired.backend

private theorem Wf.flushed (wf : Wf s) (atFront : s.finalizedRequests.head? = some req) (err : Err) :
    Wf (s.flush req err) := by
  obtain ⟨rest, parked⟩ := List.head?_eq_some_iff.mp atFront
  have unique := wf.nodup
  rw [parked, List.cons_append, List.nodup_cons, List.mem_append, not_or] at unique
  have tail : s.finalizedRequests.tail = rest := by rw [parked, List.tail_cons]
  have plain : (Event.notify req err : Event ρ φ η).Plain := trivial
  refine ⟨?_, ?_, ?_, ?_, ?_⟩
  · change (s.finalizedRequests.tail ++ s.requests).Nodup
    rw [tail]
    exact unique.2
  · exact fun other member started => wf.front other member ((s.log_started plain other).mp started)
  · change (s.delayed.filter fun d => decide (d.req ≠ req)).filterMap Delayed.parked? =
      s.finalizedRequests.tail
    rw [tail]
    have whole := wf.parked
    rw [parked] at whole
    exact filter_parked_head whole unique.1.1
  · intro other err' member
    exact (wf.retry other err' (List.mem_filter.mp member).1).imp_right (s.log_started plain other).mpr
  · exact fun other active => (wf.backend other active).imp_right (s.log_started plain other).mpr

/-- Executing the front keeps the shape. -/
theorem Wf.exec (wf : Wf s) (atFront : s.requests.head? = some req) : Wf (s.log (.exec req s.requests)) := by
  have more : ∀ other, s.Started other → (s.log (.exec req s.requests)).Started other := by
    intro other started
    simp only [World.Started, World.log, execs_exec] at started ⊢
    split <;> omega
  refine ⟨wf.nodup, ?_, wf.parked, ?_, ?_⟩
  · intro other member started
    by_cases same : req = other
    · exact same ▸ atFront
    · refine wf.front other member ?_
      simpa only [World.Started, World.log, execs_exec, if_neg same] using started
  · exact fun other err member => (wf.retry other err member).imp_right (more other)
  · exact fun other active => (wf.backend other active).imp_right (more other)

theorem World.enqueue_started (s : World ρ φ η ε) (ne : other ≠ req) :
    (s.enqueue req).Started other ↔ s.Started other := by
  simp only [World.Started, World.enqueue, World.log, World.setAsync, execs_push, if_neg ne.symm]

theorem World.enqueue_unstarted (s : World ρ φ η ε) (req : ρ) : ¬ (s.enqueue req).Started req := by
  simp [World.Started, World.enqueue, World.log]

/-- A waiting request that has been executed was there before the last push. -/
theorem World.enqueue_calm (s : World ρ φ η ε) (member : other ∈ (s.enqueue req).requests)
    (started : (s.enqueue req).Started other) : other ∈ s.requests ∧ s.Started other := by
  have ne : other ≠ req := fun same => s.enqueue_unstarted req (same ▸ started)
  refine ⟨?_, (s.enqueue_started ne).mp started⟩
  rcases List.mem_append.mp member with old | new
  · exact old
  · exact absurd (List.mem_singleton.mp new) ne

/-- Appending a request that is in neither chain keeps the shape. -/
theorem Wf.enqueue (wf : Wf s) (absent : req ∉ s.requests) (unparked : req ∉ s.finalizedRequests) :
    Wf (s.enqueue req) := by
  have kept : ∀ other, s.requests.head? = some other ∧ s.Started other →
      (s.enqueue req).requests.head? = some other ∧ (s.enqueue req).Started other := by
    rintro other ⟨atFront, started⟩
    obtain ⟨rest, requests⟩ := List.head?_eq_some_iff.mp atFront
    have ne : other ≠ req := fun same => absent (same ▸ requests ▸ List.mem_cons_self ..)
    refine ⟨?_, (s.enqueue_started ne).mpr started⟩
    change (s.requests ++ [req]).head? = some other
    rw [requests]
    rfl
  refine ⟨?_, ?_, wf.parked, ?_, ?_⟩
  · change (s.finalizedRequests ++ (s.requests ++ [req])).Nodup
    rw [← List.append_assoc]
    refine List.nodup_append.mpr ⟨wf.nodup, by simp, ?_⟩
    intro other member last new same
    rw [same, List.mem_singleton.mp new, List.mem_append] at member
    exact member.elim unparked absent
  · intro other member started
    obtain ⟨member, started⟩ := s.enqueue_calm member started
    exact (kept other ⟨wf.front other member started, started⟩).1
  · exact fun other err member => kept other (wf.retry other err member)
  · exact fun other active => kept other (wf.backend other active)

theorem Wf.setOwner (wf : Wf s) (owner : ε) : Wf { s with owner } :=
  { wf with }

/-- The backend takes the executed front. -/
theorem Wf.activate (wf : Wf s) (atFront : s.requests.head? = some req) (started : s.Started req) :
    Wf { s with active := Function.update s.active req true } := by
  refine { wf with backend := ?_ }
  intro other active
  by_cases same : other = req
  · subst same
    exact ⟨atFront, started⟩
  · exact wf.backend other (by simpa [same] using active)

/-- The backend lets a request go. -/
theorem Wf.deactivate (wf : Wf s) (req : ρ) : Wf { s with active := Function.update s.active req false } := by
  refine { wf with backend := ?_ }
  intro other active
  by_cases same : other = req
  · simp [same] at active
  · exact wf.backend other (by simpa [same] using active)

/-- The cancellation of the executed front is delayed. -/
theorem Wf.delayCancel (wf : Wf s) (atFront : s.requests.head? = some req) (started : s.Started req) (err : Err) :
    Wf (s.delay (.cancel req err)) := by
  refine { wf with parked := ?_, retry := ?_ }
  · have kept := parked_filter s.delayed req (wf.parked ▸ (wf.not_mem_tail atFront).2)
    change List.filterMap Delayed.parked? ((s.delayCancel req).delayed ++ [.cancel req err]) = s.finalizedRequests
    rw [List.filterMap_append, ← wf.parked, ← kept]
    exact List.append_nil _
  · intro other err' member
    rcases List.mem_append.mp member with old | new
    · exact wf.retry other err' (List.mem_filter.mp old).1
    · obtain ⟨rfl, _⟩ : other = req ∧ err' = err := by simpa using new
      exact ⟨atFront, started⟩

/-- Every move of queue code keeps the shape, provided the owner's moves do. -/
theorem Step.wf {Own : Owner ρ φ η ε} (ownKeeps : ∀ s t, Own.Moves s t → Wf s → Wf t) (step : Step Own s t)
    (wf : Wf s) : Wf t := by
  cases step with
  | own moved => exact ownKeeps _ _ moved wf
  | control => exact { wf with }
  | exec req atFront free fresh => exact wf.exec atFront
  | refuse check other lost => exact wf.log trivial
  | finish req f atFront fits async =>
    have retired := (wf.log (e := .done req s.requests) trivial).retired atFront
    exact Wf.log (s := ((s.log (.done req s.requests)).retire req).lock)
      { retired with } trivial
  | park req f split atFront fits why =>
    exact (wf.log (e := .done req s.requests) trivial).retired_park atFront f split
  | flush req err atFront => exact wf.flushed atFront err
  | unpark req f split rest next atFront =>
    obtain ⟨others, parked⟩ := List.head?_eq_some_iff.mp atFront
    have plain : (Event.fire req f : Event ρ φ η).Plain := trivial
    have whole := wf.parked
    rw [next, parked] at whole
    refine ⟨?_, ?_, ?_, ?_, ?_⟩
    · exact wf.nodup.sublist (List.Sublist.append_right (List.tail_sublist _) _)
    · exact fun other member started => wf.front other member ((s.log_started plain other).mp started)
    · change s.delayed.tail.filterMap Delayed.parked? = s.finalizedRequests.tail
      simpa [next, parked] using whole
    · intro other err member
      exact (wf.retry other err (List.mem_of_mem_tail member)).imp_right (s.log_started plain other).mpr
    · exact fun other active => (wf.backend other active).imp_right (s.log_started plain other).mpr
  | retry req err rest next =>
    have whole := wf.parked
    rw [next] at whole
    refine { wf with parked := ?_, retry := ?_ }
    · simpa only [List.filterMap_cons, Delayed.parked?] using whole
    · exact fun other err' member => wf.retry other err' (next ▸ List.mem_cons_of_mem _ member)
  | cancel req atFront => exact wf.log trivial
  | rest empty => exact wf.log trivial
  | restart req atFront free => exact (wf.log (e := .resume s.requests) trivial).exec atFront
  | skip => exact wf.log trivial

end Wf

end UniEvent
