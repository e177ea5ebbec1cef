import Mathlib.Logic.Relation
import UniEvent.Proofs.SslOutcome

/-! # The steps between two events

Every call is a path of the steps below, with what waits for a callback on the stack from the start: the frame of the
loop in `handle_read` is there while the loop runs, and the end of a handshake finds the frame of the call that it comes
from. What the steps keep then holds whenever control is back in the loop.
-/

namespace UniEvent.Ssl

/-- The frames that go on with received bytes. -/
def Frame.work : Frame → Bool
  | .decode | .negotiated _ | .finalWritten => true
  | .user | .reset _ => false

namespace State

variable {late : Attempt → Prop} {s t u : State} {err : ErrorCode}

/-- The same with another stack. -/
def on (s : State) (stack : List Frame) : State := { s with stack := stack }

theorem Rest.on (rest : Rest s t) (stack : List Frame) : Rest (s.on stack) (t.on stack) :=
  { rest with stack := rfl }

theorem Concluded.on (concluded : Concluded s err t) (stack : List Frame) : Concluded (s.on stack) err (t.on stack) :=
  { concluded with toRest := concluded.toRest.on stack }

private theorem conclude_on (s : State) (err : ErrorCode) (stack : List Frame) :
    (s.on stack).conclude err = (s.conclude err).on stack := by
  have stopped : (s.on stack).filterReadStop = s.filterReadStop.on stack := by
    unfold filterReadStop wantread on
    dsimp only
    split
    · rfl
    · rfl
  unfold conclude
  rw [stopped]
  rfl

/-- The end of a handshake does not look at the stack. -/
theorem Finished.on {call : State × List Frame} (finished : Finished s err call) (stack : List Frame) :
    Finished (s.on stack) err (call.1.on stack, call.2) := by
  cases finished with
  | again connected => exact .again connected
  | passed apart current own passed =>
    exact .passed apart current own { passed with toConcluded := passed.toConcluded.on stack }
  | dead apart server =>
    rw [← conclude_on]
    exact .dead apart server
  | aborted lost aborted trace => exact .aborted lost aborted trace
  | nulled apart lost nulled =>
    exact .nulled apart lost { nulled with toConcluded := nulled.toConcluded.on stack }

/-- A `_reset` is to come. -/
def Ending (s : State) : Prop := ∃ clear, .reset clear ∈ s.stack

/-- No last message of this handshake is with the backend. -/
def Alone (s : State) : Prop :=
  ∀ write ∈ s.writes, write.final = true → write.live = true → s.source ≠ some write.owner

/-- A step; `late` are the attempts that may end while a handshake message of theirs is outstanding. -/
inductive Atom (late : Attempt → Prop) (s : State) : State → Prop where
  /-- `negotiation_finished` -/
  | finished {call : State × List Frame} (err : ErrorCode) (negotiating : s.status = .negotiating)
    (settled : err = [] → s.initFinished = true ∧ s.Alone ∧ (s.drained = true ∨ .negotiated s.bio ∈ s.stack))
    (early : ∀ attempt, s.attempt = some attempt → s.owns attempt = true → late attempt)
    (outcome : Finished s err call) : Atom late s (push call)
  /-- A handshake message failed. -/
  | failed {write : Write} {err : ErrorCode} (filtered : s.ssl = true) (outstanding : write ∈ s.writes)
    (failed : err ≠ []) (free : ¬ s.Ending) : Atom late s (push ((s.subreqDone err write).negotiationFinished err))
  /-- The last message is written. -/
  | shaken {write : Write} {call : State × List Frame} (outstanding : write ∈ s.writes)
    (negotiating : s.status = .negotiating) (finished : s.initFinished = true) (own : s.source = some write.owner)
    (top : s.stack = [.finalWritten]) (outcome : Finished (s.subreqDone [] write) [] call) : Atom late s (push call)
  | written (write : Write) : Atom late s (s.subreqDone [] write)
  | write {owner : ℕ} {final : Bool} (own : s.source = some owner) (first : ∀ write ∈ s.writes, write.owner ≠ owner)
    (ready : final = true → s.status = .negotiating ∧ s.initFinished = true) :
    Atom late s { s with
      writes := { id := s.nextId, owner := owner, final := final, live := true } :: s.writes
      nextId := s.nextId + 1 }
  | abort : Atom late s s.abort
  /-- Bytes of a handshake come. -/
  | enter (idle : s.stack = []) (filtered : s.ssl = true) (reading : s.flags.reading = true)
    (heard : s.flags.ignoreRead = false) (unfailed : s.status ≠ .error) (unfinished : s.initFinished = false) :
    Atom late s { s with status := .negotiating }
  | handshake (idle : s.stack = []) (negotiating : s.status = .negotiating) (unfinished : s.initFinished = false) :
    Atom late s s.doHandshake
  /-- A round of the loop in `handle_read`. -/
  | read {rest : List Frame} (top : s.stack = .decode :: rest) (begun : s.status ≠ .initial)
    (ended : s.status ≠ .negotiating) : Atom late s s.sslRead
  | event (err : ErrorCode) : Atom late s (push (s.finalizeHandleRead err))
  | eof : Atom late s (push s.finalizeHandleEof)
  | closed : Atom late s (s.log .closed)
  | append (length : ℕ) (begun : s.status ≠ .initial)
    (place : s.stack = [.decode] ∨ s.stack = [] ∧ s.status ≠ .terminal) : Atom late s (s.setBuf length)
  | decode (idle : s.stack = []) (ended : s.status ≠ .negotiating) : Atom late s (s.on [.decode])
  | negotiate (pending : ℕ) (idle : s.stack = []) : Atom late s (s.on [.negotiated pending])
  /-- The loop starts after a handshake. -/
  | relabel {frame : Frame} {rest : List Frame} (top : s.stack = frame :: rest) (work : frame.work = true)
    (ended : s.status ≠ .negotiating) : Atom late s (s.on (.decode :: rest))
  /-- The loop ends, or does not start. -/
  | leave {frame : Frame} {rest : List Frame} (top : s.stack = frame :: rest) (work : frame.work = true)
    (reason : s.status ≠ .terminal ∨ s.drained = true ∨ frame = .decode ∧ s.wantread = false ∨ frame = .negotiated 0 ∨
      frame = .finalWritten ∧ (s.bio = 0 ∨ s.serverAlive = false)) : Atom late s (s.on rest)
  | refused {attempt : Attempt} {err : ErrorCode} (filtered : s.ssl = true) (current : s.attempt = some attempt)
    (failed : err ≠ []) (unwritten : attempt.tcp = true ∨ s.owns attempt = false) :
    Atom late s (push ((s.answered err attempt).filterHandleConnect err attempt.id))
  | plain {attempt : Attempt} (err : ErrorCode) (unfiltered : s.ssl = false) (current : s.attempt = some attempt) :
    Atom late s (push ((s.answered err attempt).finalizeHandleConnect err (some attempt.id)))
  | clearIn : Atom late s s.clearInConnected
  | clearOut : Atom late s s.clearOutConnected
  /-- The backend reports the end of the input. -/
  | seen : Atom late s { s with eofSeen := true }
  | reset {clear : Bool} {rest : List Frame} (top : s.stack = .reset clear :: rest) :
    Atom late s ((s.doReset clear).on rest)
  | resetNow (clear : Bool) (idle : s.attempt = none) : Atom late s (s.resetNow clear)
  /-- The request of an accept is canceled. -/
  | dropAccept {attempt : Attempt} (clear : Bool) (current : s.attempt = some attempt)
    (server : attempt.server = true) : Atom late s ((s.finish attempt).resetNow clear)
  /-- The cancellation is one for `reset` or `clear`. -/
  | retarget {rest : List Frame} (clear : Bool) (idle : s.attempt = none)
    (top : s.stack = .user :: rest ∨ s.stack = .user :: .reset false :: rest) :
    Atom late s (s.on (.user :: .reset clear :: rest))

/-- Steps of a program that has not been aborted. -/
def Path (late : Attempt → Prop) : State → State → Prop :=
  Relation.ReflTransGen fun s t => s.aborted = false ∧ Atom late s t

theorem Path.refl (s : State) : Path late s s := Relation.ReflTransGen.refl

theorem Path.trans (first : Path late s t) (second : Path late t u) : Path late s u :=
  Relation.ReflTransGen.trans first second

theorem Path.one (alive : s.aborted = false) (atom : Atom late s t) : Path late s t := .single ⟨alive, atom⟩

theorem Path.step (alive : s.aborted = false) (atom : Atom late s t) (rest : Path late t u) : Path late s u :=
  .head ⟨alive, atom⟩ rest

/-- What a call leads to. Of a program that was aborted only the trace matters. -/
def Leads (late : Attempt → Prop) (s t : State) : Prop :=
  ∃ u, Path late s u ∧ (u = t ∨ u.aborted = true ∧ t.aborted = true ∧ t.trace = u.trace)

theorem Path.leads (path : Path late s t) : Leads late s t := ⟨t, path, .inl rfl⟩

theorem Path.leads_aborted (path : Path late s u) (aborted : u.aborted = true ∧ t.aborted = true)
    (trace : t.trace = u.trace) : Leads late s t := ⟨u, path, .inr ⟨aborted.1, aborted.2, trace⟩⟩

theorem Leads.after (path : Path late s t) (rest : Leads late t u) : Leads late s u := by
  obtain ⟨mid, second, same⟩ := rest
  exact ⟨mid, path.trans second, same⟩

theorem Leads.trans (first : Leads late s t) (alive : t.aborted = false) (second : Leads late t u) :
    Leads late s u := by
  obtain ⟨mid, path, rfl | ⟨-, aborted, -⟩⟩ := first
  · exact .after path second
  · rw [alive] at aborted
    cases aborted

section Invariant

variable {A : List Event → Prop} {I : State → Prop}

/-- What the steps keep, of the trace always and of the state while the program runs. -/
theorem Path.keeps (path : Path late s t) (holds : A s.trace ∧ (s.aborted = true ∨ I s))
    (kept : ∀ s t, Atom late s t → A s.trace → I s → A t.trace ∧ (t.aborted = true ∨ I t)) :
    A t.trace ∧ (t.aborted = true ∨ I t) := by
  induction path with
  | refl => exact holds
  | tail _ last ih =>
    rcases ih.2 with aborted | invariant
    · rw [last.1] at aborted
      cases aborted
    · exact kept _ _ last.2 ih.1 invariant

theorem Leads.keeps (leads : Leads late s t) (holds : A s.trace ∧ (s.aborted = true ∨ I s))
    (kept : ∀ s t, Atom late s t → A s.trace → I s → A t.trace ∧ (t.aborted = true ∨ I t)) :
    A t.trace ∧ (t.aborted = true ∨ I t) := by
  obtain ⟨mid, path, same⟩ := leads
  have reached := path.keeps holds kept
  rcases same with rfl | ⟨-, aborted, trace⟩
  · exact reached
  · rw [trace]
    exact ⟨reached.1, .inl aborted⟩

end Invariant

end State

end UniEvent.Ssl
