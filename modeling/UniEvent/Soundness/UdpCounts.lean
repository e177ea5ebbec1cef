import UniEvent.Proofs.QueueTally
import UniEvent.Proofs.StreamSteps
import UniEvent.Proofs.UdpRun

/-! # What `_sq_size` counts

`Udp::send` adds the lengths of its buffers to `_sq_size` and `SendRequest::exec` takes them out. Nothing else changes
it: a send that `reset()` or `clear()` cancels before it was executed is counted for ever. `Counted` says that
`_sq_size` is the length of the sends in the queue that have not been executed, and it does so exactly as long as
nothing of that kind was lost.
-/

namespace UniEvent.Udp

open Program Program.Exec

open UniEvent.Stream (addBuffers_sum subBuffers_sum)

/-- A send counts for the lengths of its buffers, until `exec` passes them on. -/
def tally : Tally SendRequest Note where
  bytes req := req.bufs.sum
  entry
    | .passed req sqSize => .passed req sqSize

/-- `_sq_size` is the length of the sends that wait for their `exec`, as a `size_t`. -/
def Counted (s : State) : Prop := s.owner.sqSize = .ofNat (tally.waiting s.trace s.requests)

instance (s : State) : Decidable (Counted s) := inferInstanceAs (Decidable (_ = _))

variable {s t : State}

theorem Move.balance (moved : Move s t) (wf : Wf s) (balance : Balance tally Handle.sqSize s) :
    Balance tally Handle.sqSize t := by
  cases moved with
  | send req absent _ => exact balance.push absent (addBuffers_sum req.bufs _)
  | pass req atFront => exact balance.pass wf atFront rfl (subBuffers_sum req.bufs _)
  | env owner size => exact balance.frame rfl rfl size
  | _ => exact balance.frame rfl rfl rfl

theorem run_balance (ts : List Turn) : Balance tally Handle.sqSize (run ts initial).2 :=
  run_invariant (fun _ _ step wf before => Balance.step (fun _ _ moved => Move.balance moved) step wf before)
    ⟨rfl, fun _ => ⟨rfl, trivial⟩⟩ ts

/-- A `size_t` is off by nothing if it is off by a multiple of its range. -/
theorem ofNat_add_eq_iff (count off : ℕ) : UInt64.ofNat (count + off) = .ofNat count ↔ 2 ^ 64 ∣ off := by
  rw [← UInt64.toNat_inj, UInt64.toNat_ofNat', UInt64.toNat_ofNat']
  omega

/-- In every run in which no send is executed twice the subtraction does not wrap, and `_sq_size` is right if and only
if nothing was lost, that is if the sends that left without having been executed were empty. -/
theorem run_counted_iff (ts : List Turn) (once : Along tally.CountsAt (run ts initial).2.trace) :
    (Counted (run ts initial).2 ↔ 2 ^ 64 ∣ tally.lost (run ts initial).2.trace) ∧
      Along tally.NoWrapAt (run ts initial).2.trace := by
  obtain ⟨size, noWrap⟩ := (run_balance ts).counted once
  refine ⟨?_, noWrap⟩
  rw [Counted, size]
  exact ofNat_add_eq_iff _ _

/-- A send is with the backend and another one waits; the backend reports, and the callback sends a third. -/
def waitingSends : List Turn :=
  [{ depth := 9, task := .op (.send ⟨1, [2, 3]⟩) },
   { depth := 9, task := .op (.send ⟨2, [7]⟩) },
   { depth := 9, script := [.op (.send ⟨3, [4, 4]⟩)], task := .complete ⟨1, [2, 3]⟩ none }]

theorem waitingSends_counted : Counted (run waitingSends initial).2 :=
  (run_counted_iff waitingSends (by decide +kernel)).1.mpr (by decide +kernel)

/-- A send is with the backend and another one waits when the handle is reset. -/
def canceledSend : List Turn :=
  [{ depth := 9, task := .op (.send ⟨1, [3]⟩) },
   { depth := 9, task := .op (.send ⟨2, [5]⟩) },
   { depth := 9, task := .op .reset }]

theorem canceledSend_not_counted : (run canceledSend initial).1 = .done () ∧
    (run canceledSend initial).2.requests = [] ∧ (run canceledSend initial).2.owner.sqSize = 5 ∧
    ¬ Counted (run canceledSend initial).2 := by
  decide +kernel

end UniEvent.Udp
