import UniEvent.Proofs.StreamSubmit
import UniEvent.Model.Udp

/-! # No callback from inside the call that submits the request

The callback of a write, a shutdown or a `Udp::send` is never invoked before the submitting call has returned, whatever
the backend answers. That of a connect is not either, as long as in the course of the call nothing else cancels the
queue: no `reset()` or `clear()` is called, and no other connect is completed.
-/

namespace UniEvent

open Program Program.Exec

namespace Udp

private theorem exec_silent {req : SendRequest} {base : List (Event SendRequest Fn Note)} {s : State} {h : Members}
    (work : AtWork req base s) : Keeps (Silent req base) (exec h req) s := by
  have passed : AtWork req base (s.log (.own (.passed req s.owner.sqSize))) := work.log fun calls => calls
  refine .modified (.seq (I := AtWork req base) ?_ (fun _ => AtWork.silent) fun reply t work => ?_)
  · exact .get (.modified (.pure (passed.frame rfl rfl rfl rfl)))
  · cases reply with
    | pending => exact work.silent.later [] rfl (by simp)
    | failed err => exact work.silent.later [] rfl (by simp)
    | sync err => exact ((done_withheld work _).mono fun _ => Withheld.silent).ignoring

private theorem send_silent (n : ℕ) (s : State) (req : SendRequest) :
    Keeps (Silent req s.trace) (runOp (members n) (.send req)) s := by
  have idle : Silent req s.trace s := ⟨[], rfl, by simp⟩
  refine .get (.when idle fun unlinked => push_silent (h := members n) unlinked
    (fun o => { o with sqSize := Stream.addBuffers req.bufs o.sqSize }) fun t work => ?_)
  cases n with
  | zero => exact work.silent
  | succ n => exact exec_silent work

end Udp

namespace Stream

variable (n : ℕ) (s : State)

private theorem write_silent (id : ℕ) (bufs : List ℕ) :
    Keeps (Silent (.write id bufs) s.trace) (runOp (members n) (.write id bufs)) s := by
  have idle : Silent (.write id bufs) s.trace s := ⟨[], rfl, by simp⟩
  refine .get (.when idle fun unlinked => push_silent (h := members n) unlinked
    (fun o => { o with wqSize := addBuffers bufs o.wqSize }) fun t work => ?_)
  cases n with
  | zero => exact work.silent
  | succ n => exact execWrite_silent work

private theorem shutdown_silent (id timeout : ℕ) :
    Keeps (Silent (.shutdown id timeout) s.trace) (runOp (members n) (.shutdown id timeout)) s := by
  have idle : Silent (.shutdown id timeout) s.trace s := ⟨[], rfl, by simp⟩
  refine .get (.when idle fun unlinked => push_silent (h := members n) unlinked (fun o => { o with
    timedOut := Function.update o.timedOut (.shutdown id timeout) false
    shutdownTimer := Function.update o.shutdownTimer (.shutdown id timeout) (decide (timeout ≠ 0)) }) fun t work => ?_)
  cases n with
  | zero => exact work.silent
  | succ n => exact execShutdown_silent work

private theorem connect_fine (name timeout : ℕ) :
    Keeps (Fine (.connect name timeout) s.trace) (runOp (members n) (.connect name timeout)) s := by
  have idle : Silent (.connect name timeout) s.trace s := ⟨[], rfl, by simp⟩
  refine .get (.when (.inr idle) fun unlinked =>
    push_keeps unlinked id (fun _ => .inr) (fun t u trace fine => ?_) fun t work => ?_)
  · exact fine.imp (fun exposed => exposed.later [] trace) fun silent => silent.later [] trace (by simp)
  · cases n with
    | zero => exact .inr work.silent
    | succ n => exact execConnect_fine n work

theorem Fine.events {req : Req} {s t : State} (fine : Fine req s.trace t)
    (quiet : ∀ e ∈ eventsSince s t, ¬ Exposes req e) : ∀ e ∈ eventsSince s t, ¬ e.CallsBack req := by
  rcases fine with ⟨new, trace, e, member, exposes⟩ | silent
  · rw [eventsSince_eq trace] at quiet
    exact absurd exposes (quiet e member)
  · exact silent.events

end Stream

/-- At no moment of the call that submits a write, a shutdown or a datagram is its callback invoked, and at no moment of
a `connect` in the course of which `reset()` and `clear()` are not called and no other connect is completed. -/
theorem submission_not_calledBack (n : ℕ) : (∀ (s : Stream.State) (id : ℕ) (bufs : List ℕ),
      ∀ e ∈ eventsSince s (Stream.runOp (Stream.members n) (.write id bufs) s).2, ¬ e.CallsBack (.write id bufs)) ∧
    (∀ (s : Stream.State) (id timeout : ℕ),
      ∀ e ∈ eventsSince s (Stream.runOp (Stream.members n) (.shutdown id timeout) s).2, ¬ e.CallsBack
        (.shutdown id timeout)) ∧
    (∀ (s : Udp.State) (req : Udp.SendRequest),
      ∀ e ∈ eventsSince s (Udp.runOp (Udp.members n) (.send req) s).2, ¬ e.CallsBack req) ∧
    (∀ (s : Stream.State) (id timeout : ℕ),
      (∀ e ∈ eventsSince s (Stream.runOp (Stream.members n) (.connect id timeout) s).2,
        ¬ Stream.Exposes (.connect id timeout) e) →
      ∀ e ∈ eventsSince s (Stream.runOp (Stream.members n) (.connect id timeout) s).2, ¬ e.CallsBack
        (.connect id timeout)) :=
  ⟨fun s id bufs => (Stream.write_silent n s id bufs).events,
    fun s id timeout => (Stream.shutdown_silent n s id timeout).events,
    fun s req => (Udp.send_silent n s req).events, fun s id timeout => (Stream.connect_fine n s id timeout).events⟩

/-- A new stream whose backend reports `err` inside the next call; `on_establish` does `acts`. -/
def answeringAtOnce (err : Option Err) (acts : List Stream.Act) : Stream.State :=
  { Stream.initial with owner := { script := acts, replies := [.sync err] } }

/-- The connect fails inside `connect()`, after `on_establish` has queued a write. -/
theorem failingConnect_not_calledBack :
    ∀ e ∈ eventsSince (answeringAtOnce (some .timedOut) [.op (.write 2 [5])])
      (Stream.runOp (Stream.members 20) (.connect 1 0) (answeringAtOnce (some .timedOut) [.op (.write 2 [5])])).2,
      ¬ e.CallsBack (.connect 1 0) :=
  (submission_not_calledBack 20).2.2.2 _ 1 0 (by decide +kernel)

/-- `on_establish` resets the stream twice and throws: the second `reset()` calls back inside `connect()`. -/
theorem resetTwice_calledBack :
    (Stream.runOp (Stream.members 20) (.connect 1 0)
      (answeringAtOnce none [.op .reset, .ret, .op .reset, .ret, .throw])).1 = .done () ∧
    ∃ e ∈ eventsSince (answeringAtOnce none [.op .reset, .ret, .op .reset, .ret, .throw])
      (Stream.runOp (Stream.members 20) (.connect 1 0)
        (answeringAtOnce none [.op .reset, .ret, .op .reset, .ret, .throw])).2, e.CallsBack (.connect 1 0) :=
  ⟨by decide +kernel, by decide +kernel⟩

end UniEvent
