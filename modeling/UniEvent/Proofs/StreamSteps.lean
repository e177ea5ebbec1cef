import Mathlib.Algebra.Ring.Nat
import UniEvent.Model.Stream
import UniEvent.Program.Log
import UniEvent.Proofs.QueueCalls

/-! # The moves of a stream

What a stream contributes to the moves of its queue, each with what holds when it is made, and what
it may expect `done` to be called with. A connect whose completion is under way (`openConnects`) stays
at the front until `done` is called for it, unless `reset()` or `clear()` is called meanwhile; only
then may `done` be entered with a request that is not at the front.
-/

namespace UniEvent.Stream

open Program Program.Exec

def Req.isConnect : Req → Bool
  | .connect _ _ => true
  | _ => false

def Req.isShutdown : Req → Bool
  | .shutdown _ _ => true
  | _ => false

def Req.isRunInOrder : Req → Bool
  | .runInOrder _ => true
  | _ => false

/-- What a queued request counts for in `_wq_size`. -/
def Req.size : Req → UInt64
  | .write _ bufs => addBuffers bufs 0
  | _ => 0

/-- The connects whose completion has begun and whose `done` is still to be called. -/
def openConnects : List (Event Req Fn Note) → List Req
  | [] => []
  | .own (.connectEvent req) :: before => req :: openConnects before
  | .own (.connectLeft req) :: before => (openConnects before).filter fun other => decide (other ≠ req)
  | .done check _ :: before => (openConnects before).filter fun other => decide (other ≠ check)
  | _ :: before => openConnects before

/-- `reset()` or `clear()` is called while no connect completion is under way. -/
def ResetClearAt : Event Req Fn Note → List (Event Req Fn Note) → Prop
  | .own .resetCall, before => openConnects before = []
  | _, _ => True

instance : ∀ (e : Event Req Fn Note) (before : List (Event Req Fn Note)), Decidable (ResetClearAt e before)
  | .own .resetCall, before => inferInstanceAs (Decidable (openConnects before = []))
  | .own (.connectEvent _), _ | .own (.connectLeft _), _ | .own (.runNow _), _ | .own (.passed _ _), _
  | .own (.zero _), _ | .own .turn, _ => .isTrue trivial
  | .push _, _ | .exec _ _, _ | .done _ _, _ | .finish _ _ _, _ | .fire _ _, _ | .notify _ _, _ | .cancel _, _
  | .resume _, _ | .skip _ _, _ => .isTrue trivial

/-- No `reset()` or `clear()` of the run interrupts the completion of a connect. -/
abbrev ResetsClear : List (Event Req Fn Note) → Prop := Along ResetClearAt

/-- How often `reset()` or `clear()` was called. -/
def resets : List (Event Req Fn Note) → ℕ := List.countP fun e => decide (e = .own .resetCall)

/-- How often an exception of `on_establish` has left `ConnectRequest::handle_event`. -/
def lefts : List (Event Req Fn Note) → ℕ := List.countP fun e => match e with
  | .own (.connectLeft _) => true
  | _ => false

theorem lefts_left (before : List (Event Req Fn Note)) (req : Req) :
    lefts (.own (.connectLeft req) :: before) = lefts before + 1 := List.countP_cons_of_pos rfl

theorem addBuffers_sum (bufs : List ℕ) (size : UInt64) : addBuffers bufs size = size + .ofNat bufs.sum := by
  induction bufs generalizing size with
  | nil => simp [addBuffers]
  | cons buf rest ih =>
    change addBuffers rest (size + .ofNat buf) = _
    rw [ih, List.sum_cons, UInt64.ofNat_add, UInt64.add_assoc]

theorem subBuffers_sum (bufs : List ℕ) (size : UInt64) : subBuffers bufs size = size - .ofNat bufs.sum := by
  induction bufs generalizing size with
  | nil => simp [subBuffers]
  | cons buf rest ih =>
    change subBuffers rest (size - .ofNat buf) = _
    rw [ih, List.sum_cons, UInt64.ofNat_add]
    simp only [UInt64.sub_eq_add_neg, UInt64.neg_add, UInt64.add_assoc]

theorem addBuffers_eq (bufs : List ℕ) (size : UInt64) : addBuffers bufs size = size + addBuffers bufs 0 := by
  rw [addBuffers_sum, addBuffers_sum, UInt64.zero_add]

/-- The moves a stream makes itself. -/
inductive Move : State → State → Prop
  | enqueue (s : State) (req : Req) (owner : Handle) (unlinked : Unlinked s req)
      (size : owner.wqSize = s.owner.wqSize + req.size)
      (connectTimer : owner.connectTimer = s.owner.connectTimer)
      (shutdownTimer : ∀ other, owner.shutdownTimer other = true →
        (other = req ∧ req.isShutdown = true) ∨ s.owner.shutdownTimer other = true) :
      Move s ({ s with owner }.enqueue req)
  /-- Flags, scripts, and timers that stop. -/
  | handle (s : State) (owner : Handle) (size : owner.wqSize = s.owner.wqSize)
      (connectTimer : ∀ req, owner.connectTimer req = true → s.owner.connectTimer req = true)
      (shutdownTimer : ∀ req, owner.shutdownTimer req = true → s.owner.shutdownTimer req = true) :
      Move s { s with owner }
  /-- `ConnectRequest::exec` starts the timer. -/
  | arm (s : State) (req : Req) (connect : req.isConnect = true) (atFront : s.requests.head? = some req)
      (free : s.locked = 0) (started : s.Started req) :
      Move s { s with owner := { s.owner with connectTimer := Function.update s.owner.connectTimer req true } }
  | pass (s : State) (id : ℕ) (bufs : List ℕ) (atFront : s.requests.head? = some (.write id bufs))
      (started : s.Started (.write id bufs)) :
      Move s { s.log (.own (.passed (.write id bufs) s.owner.wqSize)) with
        owner := { s.owner with wqSize := subBuffers bufs s.owner.wqSize } }
  | zero (s : State) (flags : Flags) (setup : Setup) :
      Move s { s.log (.own (.zero s.requests)) with owner := { s.owner with flags, wqSize := 0, setup } }
  | connectEvent (s : State) (req : Req) (connect : req.isConnect = true)
      (atFront : s.requests.head? = some req) : Move s (s.log (.own (.connectEvent req)))
  | connectLeft (s : State) (req : Req) : Move s (s.log (.own (.connectLeft req)))
  | resetCall (s : State) : Move s (s.log (.own .resetCall))
  | runNow (s : State) (empty : s.requests = []) : Move s (s.log (.own (.runNow s.finalizedRequests)))
  | turn (s : State) (script : List Act) (replies : List Reply) :
      Move s { s.log (.own .turn) with owner := { s.owner with script, replies } }
  | activate (s : State) (req : Req) (atFront : s.requests.head? = some req) (started : s.Started req) :
      Move s { s with active := Function.update s.active req true }
  /-- The backend has reported. -/
  | deactivate (s : State) (req : Req) : Move s { s with active := Function.update s.active req false }
  | delayCancel (s : State) (req : Req) (err : Err) (atFront : s.requests.head? = some req)
      (started : s.Started req) : Move s (s.delay (.cancel req err))

/-- The closures with which each class of requests calls `done`. -/
def Closes (req : Req) (f : Fn) : Prop :=
  match req with
  | .connect _ _ | .write _ _ | .shutdown _ _ => ∃ err, f = .notifyOn req err
  | .disconnect _ => f = .reset ∨ f = .nothing
  | .accept _ => f = .nothing
  | .runInOrder _ => f = .code req

/-- `done` is called after the timer of the request was stopped. -/
def Fits (s : State) (req : Req) (f : Fn) : Prop :=
  match req with
  | .connect _ _ => Closes req f ∧ s.owner.connectTimer req = false
  | .shutdown _ _ => Closes req f ∧ s.owner.shutdownTimer req = false
  | .write _ _ | .disconnect _ | .accept _ | .runInOrder _ => Closes req f

theorem Fits.closes {s : State} {req : Req} {f : Fn} (fits : Fits s req f) : Closes req f := by
  cases req with
  | connect | shutdown => exact fits.1
  | _ => exact fits

def Own : Owner Req Fn Note Handle where
  Moves := Move
  Fits := Fits
  Lost s _ := ¬ ResetsClear s.trace

variable {s t : State}

theorem Move.wf (moved : Move s t) (wf : Wf s) : Wf t := by
  cases moved with
  | enqueue req owner unlinked _ _ _ => exact (wf.setOwner owner).enqueue unlinked.1 unlinked.2
  | handle owner _ _ _ => exact wf.setOwner owner
  | arm => exact wf.setOwner _
  | pass id bufs _ _ => exact (wf.log (Event.plain_own _)).setOwner _
  | zero flags setup => exact (wf.log (Event.plain_own _)).setOwner _
  | connectEvent req _ _ => exact wf.log (Event.plain_own _)
  | connectLeft req => exact wf.log (Event.plain_own _)
  | resetCall => exact wf.log (Event.plain_own _)
  | runNow _ => exact wf.log (Event.plain_own _)
  | turn script replies => exact (wf.log (Event.plain_own _)).setOwner _
  | activate req atFront started => exact wf.activate atFront started
  | deactivate req => exact wf.deactivate req
  | delayCancel req err atFront started => exact wf.delayCancel atFront started err

theorem Move.older (moved : Move s t) : s.trace <:+ t.trace := by
  cases moved with
  | enqueue | pass | zero | connectEvent | connectLeft | resetCall | runNow | turn => exact List.suffix_cons _ _
  | _ => exact List.suffix_refl _

theorem Move.gen (moved : Move s t) : s.cancelGen ≤ t.cancelGen := by
  cases moved <;> exact le_rfl

theorem path_older (path : Path Own s t) : s.trace <:+ t.trace := path.older fun _ _ => Move.older

theorem path_gen (path : Path Own s t) : s.cancelGen ≤ t.cancelGen := path.gen fun _ _ => Move.gen

end UniEvent.Stream
