import Mathlib.Algebra.Ring.Nat
import Mathlib.Algebra.BigOperators.Group.List.Basic
import UniEvent.Program.Log
import UniEvent.Proofs.QueueStep

/-! # A counter of the bytes that wait in a queue

The owner of a queue may keep a `size_t` of the bytes its waiting requests hold: it adds the bytes of a request when
the request is pushed, takes them out when the request passes them on, and may set the counter to zero. A `Tally` says
what a request holds and which notes of the owner concern the counter.

`Balance` holds in every run: the counter is off exactly by what was `lost`, the bytes of requests that left without
having passed them on, unless it was set to zero while something waited or a request passed its bytes on twice.
-/

namespace UniEvent

open Program

variable {ρ φ η ε : Type} {e : Event ρ φ η} {req : ρ} {note : η}

/-- What a note of the owner says about the counter. -/
inductive Entry (ρ : Type) where
  /-- The bytes of the request are taken out of the counter, which was `size`. -/
  | passed (req : ρ) (size : UInt64)
  /-- The counter is set to zero. -/
  | zero (requests : List ρ)
  | other

structure Tally (ρ η : Type) where
  bytes : ρ → ℕ
  entry : η → Entry ρ

namespace Tally

variable [DecidableEq ρ] (T : Tally ρ η)

/-- The bytes of the request were passed on since it was last pushed. -/
def passedOn : List (Event ρ φ η) → ρ → Bool
  | [], _ => false
  | .push other :: before, req => if other = req then false else passedOn before req
  | .own note :: before, req =>
    match T.entry note with
    | .passed other _ => if other = req then true else passedOn before req
    | .zero _ | .other => passedOn before req
  | _ :: before, req => passedOn before req

/-- What the request is to count for. -/
def unpassed (trace : List (Event ρ φ η)) (req : ρ) : ℕ := if T.passedOn trace req = true then 0 else T.bytes req

def waiting (trace : List (Event ρ φ η)) (requests : List ρ) : ℕ := (requests.map (T.unpassed trace)).sum

/-- What left since the counter was last set to zero without having been passed on. -/
def lost : List (Event ρ φ η) → ℕ
  | [] => 0
  | .own note :: before =>
    match T.entry note with
    | .zero _ => 0
    | .passed _ _ | .other => lost before
  | .done check requests :: before =>
    lost before + if requests.head? = some check then T.unpassed before check else 0
  | _ :: before => lost before

omit T in
/-- `requests`, as the trace shows it. -/
def queued : List (Event ρ φ η) → List ρ
  | [] => []
  | .push req :: before => queued before ++ [req]
  | .done check requests :: _ => if requests.head? = some check then requests.tail else requests
  | _ :: before => queued before

/-- Setting the counter to zero is right only while nothing waits, and passing bytes on only once. -/
def Counts (before : List (Event ρ φ η)) : Entry ρ → Prop
  | .zero requests => T.waiting before requests = 0
  | .passed req _ => T.passedOn before req = true → T.bytes req = 0
  | .other => True

instance (before : List (Event ρ φ η)) : DecidablePred (T.Counts before)
  | .zero requests => inferInstanceAs (Decidable (T.waiting before requests = 0))
  | .passed req _ => inferInstanceAs (Decidable (T.passedOn before req = true → T.bytes req = 0))
  | .other => .isTrue trivial

/-- The counter is set to zero only while nothing waits, and no request passes its bytes on twice. -/
def CountsAt : Event ρ φ η → List (Event ρ φ η) → Prop
  | .own note, before => T.Counts before (T.entry note)
  | _, _ => True

instance (e : Event ρ φ η) (before : List (Event ρ φ η)) : Decidable (T.CountsAt e before) := by
  apply Event.casesOn (motive := fun e => Decidable (T.CountsAt e before)) <;> intros <;>
    unfold CountsAt <;> infer_instance

/-- The subtraction does not wrap, if what is counted is a `size_t` at all. -/
def NoWrapAt : Event ρ φ η → List (Event ρ φ η) → Prop
  | .own note, before =>
    match T.entry note with
    | .passed req size => T.waiting before (queued before) + T.lost before < 2 ^ 64 → T.bytes req ≤ size.toNat
    | .zero _ | .other => True
  | _, _ => True

/-! ### The events that count -/

/-- The event is none of those that change what is counted. -/
def Inert : Event ρ φ η → Prop
  | .push _ | .done _ _ => False
  | .own note => T.entry note = .other
  | _ => True

variable {T} {trace : List (Event ρ φ η)}

private theorem unpassed_inert (inert : T.Inert e) : T.unpassed (e :: trace) = T.unpassed trace := by
  funext req
  cases e with
  | push | done => exact inert.elim
  | own note => simp only [unpassed, passedOn, show T.entry note = .other from inert]
  | _ => rfl

private theorem lost_inert (inert : T.Inert e) : T.lost (e :: trace) = T.lost trace := by
  cases e with
  | push | done => exact inert.elim
  | own note => simp only [lost, show T.entry note = .other from inert]
  | _ => rfl

private theorem queued_inert (inert : T.Inert e) : queued (e :: trace) = queued trace := by
  cases e with
  | push | done => exact inert.elim
  | _ => rfl

private theorem noWrap_inert (inert : T.Inert e) : T.NoWrapAt e trace := by
  cases e with
  | push | done => exact inert.elim
  | own note => simp only [NoWrapAt, show T.entry note = .other from inert]
  | _ => trivial

private theorem waiting_push {requests : List ρ} (absent : req ∉ requests) :
    T.waiting (.push req :: trace) requests = T.waiting trace requests := by
  refine congrArg List.sum (List.map_congr_left fun other member => ?_)
  have different : req ≠ other := fun eq => absent (eq ▸ member)
  simp [unpassed, passedOn, different]

private theorem waiting_passed {size : UInt64} (passed : T.entry note = .passed req size) {requests : List ρ}
    (absent : req ∉ requests) : T.waiting (.own note :: trace) requests = T.waiting trace requests := by
  refine congrArg List.sum (List.map_congr_left fun other member => ?_)
  have different : req ≠ other := fun eq => absent (eq ▸ member)
  simp [unpassed, passedOn, passed, different]

theorem waiting_cons (req : ρ) (requests : List ρ) :
    T.waiting trace (req :: requests) = T.unpassed trace req + T.waiting trace requests := rfl

end Tally

/-! ### The balance -/

variable [DecidableEq ρ] {T : Tally ρ η} {size : ε → UInt64} {s t : World ρ φ η ε}

/-- What holds in every run: as long as the count has not gone wrong otherwise, it is off by what was lost. -/
structure Balance (T : Tally ρ η) (size : ε → UInt64) (s : World ρ φ η ε) : Prop where
  queue : Tally.queued s.trace = s.requests
  counted : Along T.CountsAt s.trace →
    size s.owner = .ofNat (T.waiting s.trace s.requests + T.lost s.trace) ∧ Along T.NoWrapAt s.trace

namespace Balance

theorem inert (balance : Balance T size s) (trace : t.trace = e :: s.trace) (inert : T.Inert e)
    (requests : t.requests = s.requests) (same : size t.owner = size s.owner) : Balance T size t where
  queue := by rw [trace, Tally.queued_inert inert, requests, balance.queue]
  counted counts := by
    rw [trace] at counts ⊢
    have before := balance.counted counts.2
    refine ⟨?_, Tally.noWrap_inert inert, before.2⟩
    rw [same, requests, before.1, Tally.lost_inert inert, Tally.waiting, Tally.waiting, Tally.unpassed_inert inert]

theorem frame (balance : Balance T size s) (trace : t.trace = s.trace) (requests : t.requests = s.requests)
    (same : size t.owner = size s.owner) : Balance T size t where
  queue := by rw [trace, requests, balance.queue]
  counted counts := by
    rw [trace] at counts ⊢
    rw [requests, same]
    exact balance.counted counts

variable {owner : ε}

section

variable (balance : Balance T size s)

include balance

theorem push (absent : req ∉ s.requests)
    (added : size owner = size s.owner + .ofNat (T.bytes req)) : Balance T size ({ s with owner }.enqueue req) where
  queue := congrArg (· ++ [req]) balance.queue
  counted counts := by
    have before := balance.counted counts.2
    refine ⟨?_, trivial, before.2⟩
    change size owner = .ofNat (T.waiting (.push req :: s.trace) (s.requests ++ [req]) + T.lost s.trace)
    have fresh : T.unpassed (.push req :: s.trace) req = T.bytes req := by simp [Tally.unpassed, Tally.passedOn]
    have total : T.waiting (.push req :: s.trace) (s.requests ++ [req]) =
        T.waiting s.trace s.requests + T.bytes req := by
      rw [← Tally.waiting_push absent]
      simp [Tally.waiting, fresh]
    rw [added, before.1, total, ← UInt64.ofNat_add]
    congr 1
    omega

/-- The front leaves, and what it still counted for is lost. -/
theorem done (atFront : s.requests.head? = some req)
    (trace : t.trace = .done req s.requests :: s.trace) (requests : t.requests = s.requests.tail)
    (same : size t.owner = size s.owner) : Balance T size t where
  queue := by rw [trace, requests]; simp [Tally.queued, atFront]
  counted counts := by
    rw [trace] at counts ⊢
    have before := balance.counted counts.2
    obtain ⟨rest, eq⟩ := List.head?_eq_some_iff.mp atFront
    refine ⟨?_, trivial, before.2⟩
    have gone : T.lost (.done req s.requests :: s.trace) = T.lost s.trace + T.unpassed s.trace req := by
      simp [Tally.lost, atFront]
    have left : T.waiting (.done req s.requests :: s.trace) s.requests.tail = T.waiting s.trace rest := by rw [eq]; rfl
    rw [same, requests, before.1, gone, left, eq, Tally.waiting_cons]
    congr 1
    omega

/-- `done` refuses a request that is not at the front. -/
theorem refuse {check : ρ} (other : s.requests.head? ≠ some check) :
    Balance T size (s.log (.done check s.requests)) where
  queue := by simp [Tally.queued, other, World.log]
  counted counts := by
    have before := balance.counted counts.2
    have same : T.lost (.done check s.requests :: s.trace) = T.lost s.trace := by simp [Tally.lost, other]
    refine ⟨?_, trivial, before.2⟩
    rw [World.log_trace, same]
    exact before.1

/-- The front passes its bytes on. -/
theorem pass (wf : Wf s) (atFront : s.requests.head? = some req)
    (passed : T.entry note = .passed req (size s.owner)) (taken : size owner = size s.owner - .ofNat (T.bytes req)) :
    Balance T size { s.log (.own note) with owner } where
  queue := balance.queue
  counted counts := by
    have before := balance.counted counts.2
    have once : T.passedOn s.trace req = true → T.bytes req = 0 := by
      simpa only [Tally.CountsAt, passed, Tally.Counts] using counts.1
    obtain ⟨rest, requests⟩ := List.head?_eq_some_iff.mp atFront
    have absent : req ∉ rest := by simpa [requests] using (wf.not_mem_tail atFront).1
    have whole : T.unpassed s.trace req = T.bytes req := by
      unfold Tally.unpassed
      split
      · exact (once ‹_›).symm
      · rfl
    have counted : size s.owner = .ofNat (T.bytes req + (T.waiting s.trace rest + T.lost s.trace)) := by
      rw [before.1, requests, Tally.waiting_cons, whole, Nat.add_assoc]
    refine ⟨?_, ?_, before.2⟩
    · change size owner = .ofNat (T.waiting (.own note :: s.trace) s.requests + T.lost (.own note :: s.trace))
      have gone : T.unpassed (.own note :: s.trace) req = 0 := by simp [Tally.unpassed, Tally.passedOn, passed]
      have kept : T.lost (.own note :: s.trace) = T.lost s.trace := by simp only [Tally.lost, passed]
      rw [requests, Tally.waiting_cons, gone, Tally.waiting_passed passed absent, kept, taken, Nat.zero_add, counted,
        UInt64.ofNat_add, UInt64.add_comm, UInt64.add_sub_cancel]
    · simp only [Tally.NoWrapAt, passed]
      intro fits
      rw [balance.queue, requests, Tally.waiting_cons, whole, Nat.add_assoc] at fits
      rw [counted, UInt64.toNat_ofNat', Nat.mod_eq_of_lt fits]
      exact Nat.le_add_right _ _

theorem zero (zeroed : T.entry note = .zero s.requests) (empty : size owner = 0) :
    Balance T size { s.log (.own note) with owner } where
  queue := balance.queue
  counted counts := by
    have none : T.waiting s.trace s.requests = 0 := by simpa only [Tally.CountsAt, zeroed, Tally.Counts] using counts.1
    refine ⟨?_, by simp only [Tally.NoWrapAt, zeroed], (balance.counted counts.2).2⟩
    change size owner = .ofNat (T.waiting (.own note :: s.trace) s.requests + T.lost (.own note :: s.trace))
    have same : T.waiting (.own note :: s.trace) s.requests = T.waiting s.trace s.requests := by
      refine congrArg List.sum (List.map_congr_left fun other _ => ?_)
      simp only [Tally.unpassed, Tally.passedOn, zeroed]
    have start : T.lost (.own note :: s.trace) = 0 := by simp only [Tally.lost, zeroed]
    rw [empty, same, none, start]
    rfl

end

/-- What the queue itself does keeps the balance. -/
theorem step {Own : Owner ρ φ η ε} (own : ∀ s t, Own.Moves s t → Wf s → Balance T size s → Balance T size t)
    (step : Step Own s t) (wf : Wf s) (balance : Balance T size s) : Balance T size t := by
  cases step with
  | own moved => exact own s t moved wf balance
  | control | retry => exact balance.frame rfl rfl rfl
  | exec | flush | unpark | cancel | rest | skip => exact balance.inert rfl trivial rfl rfl
  | restart req =>
    have resumed : Balance T size (s.log (.resume s.requests)) := balance.inert rfl trivial rfl rfl
    exact resumed.inert rfl trivial rfl rfl
  | refuse check other _ => exact balance.refuse other
  | finish req f atFront _ _ =>
    have removed : Balance T size ((s.log (.done req s.requests)).retire req).lock := balance.done atFront rfl rfl rfl
    exact removed.inert rfl trivial rfl rfl
  | park req f split atFront _ _ => exact balance.done atFront rfl rfl rfl

end Balance

end UniEvent
