import UniEvent.Proofs.QueueTally
import UniEvent.Proofs.StreamRun

/-! # What `_wq_size` counts

`Stream::write` adds the lengths of its buffers to `_wq_size`, `WriteRequest::exec` takes them out when
it passes them on, and `_reset` and `_clear` set it to zero. `Counted` says that it is the length of the
writes in `requests` whose buffers have not been passed on.

In every run `_wq_size` also holds what was lost: the lengths of the writes that left without passing
their buffers on, since a cancel or a stream that is not connected completes them without `exec`
getting that far. It goes wrong further if it is set to zero while a write waits, or if a write passes
its buffers on twice.
-/

namespace UniEvent.Stream

open Program Program.Exec

variable {s t : State}

/-- The length of the buffers of a write. -/
def Req.bytes : Req → ℕ
  | .write _ bufs => bufs.sum
  | .connect _ _ | .shutdown _ _ | .disconnect _ | .accept _ | .runInOrder _ => 0

theorem Req.size_eq (req : Req) : req.size = .ofNat req.bytes := by
  cases req with
  | write id bufs => exact (addBuffers_sum bufs 0).trans (UInt64.zero_add _)
  | _ => rfl

/-- A write counts for the lengths of its buffers, until `exec` passes them on or `_wq_size` is set to zero. -/
def tally : Tally Req Note where
  bytes := Req.bytes
  entry
    | .passed req wqSize => .passed req wqSize
    | .zero requests => .zero requests
    | .connectEvent _ | .connectLeft _ | .resetCall | .runNow _ | .turn => .other

/-- `_wq_size` is the length of the writes that wait, as a `size_t`. -/
def Counted (s : State) : Prop := s.owner.wqSize = .ofNat (tally.waiting s.trace s.requests)

instance (s : State) : Decidable (Counted s) := inferInstanceAs (Decidable (_ = _))

theorem Move.balance (moved : Move s t) (wf : Wf s) (balance : Balance tally Handle.wqSize s) :
    Balance tally Handle.wqSize t := by
  cases moved with
  | enqueue req owner unlinked size _ _ => exact balance.push unlinked.1 (size.trans (by rw [Req.size_eq]; rfl))
  | pass id bufs atFront _ => exact balance.pass wf atFront rfl (subBuffers_sum bufs _)
  | zero flags => exact balance.zero rfl rfl
  | connectEvent | connectLeft | resetCall | runNow | turn => exact balance.inert rfl rfl rfl rfl
  | handle owner size _ _ => exact balance.frame rfl rfl size
  | _ => exact balance.frame rfl rfl rfl

theorem run_balance (ts : List Turn) : Balance tally Handle.wqSize (run ts initial).2 :=
  run_invariant (fun _ _ step wf _ before => Balance.step (fun _ _ moved => Move.balance moved) step wf before)
    ⟨rfl, fun _ => ⟨rfl, trivial⟩⟩ ts

/-- In every run in which `_wq_size` is set to zero only while nothing waits and no write passes its
buffers on twice, the subtraction does not wrap, and `_wq_size` is right whenever all that left since
it was last set to zero had been passed on. -/
theorem run_counts (ts : List Turn) (counts : Along tally.CountsAt (run ts initial).2.trace)
    (settled : tally.lost (run ts initial).2.trace = 0) :
    Counted (run ts initial).2 ∧ Along tally.NoWrapAt (run ts initial).2.trace := by
  obtain ⟨size, noWrap⟩ := (run_balance ts).counted counts
  rw [settled, Nat.add_zero] at size
  exact ⟨size, noWrap⟩

/-- A reset cancels a write that waits behind another one, and then the same happens up to the reset. -/
def connectedWrites : List Turn :=
  [{ depth := 9, task := .op .opened },
   { depth := 9, task := .op (.write 1 [2, 3]) },
   { depth := 9, task := .op (.write 2 [7]) },
   { depth := 9, task := .op .reset },
   { depth := 9, task := .op .opened },
   { depth := 9, task := .op (.write 3 [4]) },
   { depth := 9, task := .op (.write 4 [6]) }]

theorem connectedWrites_counted : Counted (run connectedWrites initial).2 ∧
    Along tally.NoWrapAt (run connectedWrites initial).2.trace :=
  run_counts connectedWrites (by decide) (by decide)

/-- A write on a stream that is not connected is canceled by the loop. -/
def unconnectedWrite : List Turn :=
  [{ depth := 9, task := .op (.write 1 [5]) },
   { depth := 9, task := .fire }]

theorem unconnectedWrite_not_counted : ¬ Counted (run unconnectedWrite initial).2 := by
  decide

end UniEvent.Stream
