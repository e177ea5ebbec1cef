import UniEvent.Model.Ssl
import UniEvent.Model.StreamOpen

/-! # The setters of the flags

`_read_start`, `set_connect_result` and the other small members of `Stream` that change its flags stand in three models:
by themselves in `StreamOpen`, with the queue and the user's code around them in `Stream`, and with a filter around them
in `Ssl`. The last two have fewer flags. On those they have, they agree with the first one.
-/

namespace UniEvent.StreamOpen

open Program

/-- The members that stand in all three models -/
inductive Setter where
  /-- `_read_start` -/
  | startReading
  | readStart
  | readStop
  | setConnectResult (ok : Bool)
  | clearOutConnected
  | clearInConnected
  | reset
  | clear
deriving DecidableEq, Repr

namespace Setter

variable (h : Stream.Members) (answer : Option Err) (f : Flags)

/-- The member by itself; `answer` is that of the backend if it is asked. -/
def run : Setter → Option Err × Flags
  | .startReading => f.readStart answer
  | .readStart => (none, ({ f with dontRead := false, ignoreRead := false }.readStart answer).2)
  | .readStop => (none, f.readStop)
  | .setConnectResult ok => f.setConnectResult ok answer
  | .clearOutConnected => (none, f.clearOutConnected)
  | .clearInConnected => (none, f.clearInConnected)
  | .reset => (none, f.reset)
  | .clear => (none, {})

/-- The same member of a stream with its queue. -/
def stream : Setter → Exec Stream.State (Option Err)
  | .startReading => Stream._readStart
  | .readStart => do
    Stream.runOp h .readStart
    pure none
  | .readStop => do
    Stream.runOp h .readStop
    pure none
  | .setConnectResult ok => Stream.setConnectResult ok
  | .clearOutConnected => do
    Stream.clearOutConnected
    pure none
  | .clearInConnected => do
    Stream.clearInConnected
    pure none
  | .reset => do
    Stream._reset
    pure none
  | .clear => do
    Stream._clear
    pure none

/-- The same member of a stream with a filter. -/
def ssl (s : Ssl.State) : Setter → Ssl.ErrorCode × Ssl.State
  | .startReading => s.startReading
  | .readStart => ([], s.readStart)
  | .readStop => ([], s.readStop)
  | .setConnectResult ok => s.setConnectResult ok
  | .clearOutConnected => ([], s.clearOutConnected)
  | .clearInConnected => ([], s.clearInConnected)
  | .reset => ([], s.doReset false)
  | .clear => ([], s.doReset true)

end Setter

/-- What the backend of the queue's model says to `read_start`. -/
def readAnswer (s : Stream.State) : Option Err :=
  match s.owner.replies.headD .pending with
  | .failed _ => some .readStart
  | _ => none

/-- The flags that the model with the filter has. -/
def Flags.ssl (f : Flags) : Ssl.Flags where
  connecting := f.connecting
  established := f.established
  inConnected := f.inConnected
  outConnected := f.outConnected
  dontRead := f.dontRead
  reading := f.reading
  ignoreRead := f.ignoreRead

variable {h : Stream.Members} {s : Stream.State} {f : Flags}

private theorem wp_reply_bind {α : Type} {k : Stream.Reply → Exec Stream.State α}
    {Q : Outcome α → Stream.State → Prop} : wp (Stream.nextReply >>= k) Q s ↔
      wp (k (s.owner.replies.headD .pending)) Q
        { s with owner := { s.owner with replies := s.owner.replies.tail } } :=
  Iff.rfl

private theorem _readStart_flags (same : f.toFlags = s.owner.flags) :
    wp Stream._readStart (fun o t => o = .done (f.readStart (readAnswer s)).1 ∧
      (f.readStart (readAnswer s)).2.toFlags = t.owner.flags) s := by
  unfold Stream._readStart Flags.readStart readAnswer
  rw [wp_get_bind, ← same]
  split
  · exact ⟨rfl, same⟩
  · rw [wp_reply_bind]
    cases s.owner.replies.headD .pending <;> simp [Stream.setFlags, Stream.update, same]

/-- With a queue around it, a member changes the flags as it does by itself and returns the same error. -/
theorem Setter.stream_flags (c : Setter) (same : f.toFlags = s.owner.flags) :
    wp (c.stream h) (fun o t => o = .done (c.run (readAnswer s) f).1 ∧
      (c.run (readAnswer s) f).2.toFlags = t.owner.flags) s := by
  cases c with
  | startReading => exact _readStart_flags same
  | readStart =>
    simp only [stream, Stream.runOp, Stream.setFlags, Stream.update]
    rw [wp_bind, wp_modify_bind, wp_bind]
    apply wp_mono (_readStart_flags (f := { f with dontRead := false, ignoreRead := false }) (by simp [← same]))
    rintro _ t ⟨rfl, later⟩
    exact ⟨rfl, later⟩
  | setConnectResult ok =>
    simp only [stream, run, Stream.setConnectResult, Flags.setConnectResult, Stream.setFlags, Stream.update,
      wp_modify_bind, ← same]
    cases ok with
    | false => simp
    | true =>
      simp only [if_true, wp_modify_bind, wp_get_bind]
      split
      · exact _readStart_flags rfl
      · simp
  | clearOutConnected | clearInConnected =>
    simp only [stream, run, Stream.clearOutConnected, Stream.clearInConnected, Stream.setFlags, Stream.update,
      Flags.clearOutConnected, Flags.clearInConnected, wp_modify_bind, wp_pure, ← same]
    split_ifs with side <;> simp [side]
  | _ =>
    simp [stream, run, Stream.runOp, Stream._reset, Stream._clear, Stream.setFlags, Stream.update, Flags.readStop,
      Flags.reset, ← same]

theorem setShutdown_flags (ok : Bool) (same : f.toFlags = s.owner.flags) :
    wp (Stream.setShutdown ok) (fun o t => o = .done () ∧ (f.setShutdown ok).toFlags = t.owner.flags) s := by
  simp only [Stream.setShutdown, Stream.clearOutConnected, Stream.setFlags, Stream.update, Flags.setShutdown,
    Flags.clearOutConnected, wp_modify_bind, ← same]
  cases ok with
  | false => simp [wp_when]
  | true =>
    simp only [if_true, wp_when, wp_modify]
    split_ifs with side <;> simp [side]

variable {s : Ssl.State} {answer : Option Err}

private theorem startReading_flags (same : f.ssl = s.flags) (answers : answer = none ↔ s.oracle.readStart = []) :
    (s.startReading.1 = [] ↔ (f.readStart answer).1 = none) ∧ (f.readStart answer).2.ssl = s.startReading.2.flags := by
  unfold Ssl.State.startReading Flags.readStart
  rw [← same]
  by_cases idle : f.reading = true ∨ f.established = false
  · simpa [Flags.ssl, idle] using same
  · by_cases refused : s.oracle.readStart = []
    · obtain rfl := answers.mpr refused
      simp [Flags.ssl, Ssl.State.setFlags, idle, refused]
    · have failed : answer ≠ none := fun fine => refused (answers.mp fine)
      simp [Flags.ssl, idle, refused, failed, ← same]

/-- So it does with a filter around it, which is told of an error if and only if there is one. -/
theorem Setter.ssl_flags (c : Setter) (same : f.ssl = s.flags) (answers : answer = none ↔ s.oracle.readStart = []) :
    ((c.ssl s).1 = [] ↔ (c.run answer f).1 = none) ∧ (c.run answer f).2.ssl = (c.ssl s).2.flags := by
  cases c with
  | startReading => exact startReading_flags same answers
  | readStart =>
    let started := s.setFlags { s.flags with dontRead := false, ignoreRead := false }
    have reads := startReading_flags (s := started) (f := { f with dontRead := false, ignoreRead := false })
      (by simp [started, Ssl.State.setFlags, Flags.ssl, ← same]) answers
    exact ⟨by simp [ssl, run], reads.2⟩
  | setConnectResult ok =>
    simp only [ssl, run, Ssl.State.setConnectResult, Flags.setConnectResult, Ssl.State.wantread, Ssl.State.setFlags,
      Ssl.State.log, ← same, Flags.ssl]
    cases ok with
    | false => simp
    | true =>
      cases wanted : f.dontRead with
      | true => simp
      | false => exact startReading_flags (by simp [Flags.ssl]) answers
  | clearOutConnected | clearInConnected =>
    simp only [ssl, run, Ssl.State.clearOutConnected, Ssl.State.clearInConnected, Ssl.State.setFlags,
      Flags.clearOutConnected, Flags.clearInConnected, Flags.ssl, ← same]
    split_ifs <;> simp_all
  | _ =>
    simp [ssl, run, Ssl.State.readStop, Ssl.State.doReset, Ssl.State.setFlags, Ssl.State.log, Flags.readStop,
      Flags.reset, Flags.ssl, ← same]

theorem readIgnore_flags (same : f.ssl = s.flags) : { f with ignoreRead := true }.ssl = s.readIgnore.flags := by
  simp [Ssl.State.readIgnore, Ssl.State.setFlags, Flags.ssl, ← same]

end UniEvent.StreamOpen
