import UniEvent.Model.Ssl

/-! # Read errors under an SSL filter

`SslFilter::handle_read` takes an error for a late packet of a failed handshake unless the stream is connecting, and a
stream whose handshake is over is connecting only while another connect is under way. So the errors of a connected
stream are dropped, and the user waits on.
-/

namespace UniEvent.Ssl

namespace State

variable {s : State} {err : ErrorCode}

/-- The user gets the error in one `read_event`, as on the stream without its filter. -/
def ReportsError (s : State) (err : ErrorCode) : Prop :=
  (s.handleRead 0 err).1.trace = .readEvent err :: s.trace ∧
    (({ s with ssl := false }).handleRead 0 err).1.trace = .readEvent err :: s.trace

private theorem handleRead_plain (other : err ≠ [.connectionReset]) :
    (({ s with ssl := false }).handleRead 0 err).1.trace =
      if s.flags.ignoreRead = true then s.trace else .readEvent err :: s.trace := by
  simp only [handleRead, other, if_false, Bool.false_eq_true]
  split
  · rfl
  · rfl

/-- A finished handshake hears of no error. -/
theorem negotiationFinished_of_terminal (done : s.status = .terminal) : s.negotiationFinished err = (s, []) := by
  simp only [negotiationFinished, done, true_or, if_true]

private theorem filterReadError_trace (done : s.status = .terminal) :
    (s.filterReadError err).1.trace =
      if s.flags.connecting = true ∧ s.initFinished = true then .readEvent err :: s.trace else s.trace := by
  unfold filterReadError
  cases connecting : s.flags.connecting with
  | false => simp
  | true =>
    cases finished : s.initFinished with
    | false => simp [negotiationFinished_of_terminal done]
    | true => simp [finalizeHandleRead, log]

private theorem handleRead_trace (ssl : s.ssl = true) (done : s.status = .terminal) (connected : s.connected = true)
    (failed : err ≠ []) (other : err ≠ [.connectionReset]) :
    (s.handleRead 0 err).1.trace =
      if s.flags.ignoreRead = false ∧ s.flags.connecting = true ∧ s.initFinished = true
      then .readEvent err :: s.trace else s.trace := by
  have undone : s.status ≠ .error := by
    rw [done]
    decide
  cases ignored : s.flags.ignoreRead with
  | true => simp [handleRead, other, ignored]
  | false =>
    have filtered : s.handleRead 0 err = s.filterReadError err := by
      simp [handleRead, filterHandleRead, other, ignored, ssl, undone, connected, failed]
    rw [filtered, filterReadError_trace done]
    simp

/-- A read error after the handshake reaches the user exactly while another connect is under way. -/
theorem reportsError_iff (s : State) (err : ErrorCode) (ssl : s.ssl = true) (done : s.status = .terminal)
    (connected : s.connected = true) (failed : err ≠ []) (other : err ≠ [.connectionReset]) :
    s.ReportsError err ↔
      s.flags.connecting = true ∧ s.initFinished = true ∧ s.flags.ignoreRead = false := by
  rw [ReportsError, handleRead_trace ssl done connected failed other, handleRead_plain other]
  have longer : s.trace ≠ .readEvent err :: s.trace := fun same => by
    have sizes := congrArg List.length same
    rw [List.length_cons] at sizes
    omega
  constructor
  · rintro ⟨filtered, -⟩
    split at filtered
    · rename_i clear
      exact ⟨clear.2.1, clear.2.2, clear.1⟩
    · exact absurd filtered longer
  · rintro ⟨connecting, finished, heard⟩
    constructor
    · rw [if_pos ⟨heard, connecting, finished⟩]
    · rw [heard, if_neg Bool.false_ne_true]

end State

/-- A client says hello, gets an answer and sends its last message. -/
def shaken : List (Oracle × Move) :=
  [({}, .op (.connect false)),
    ({ handshake := { output := true } }, .input (.connected [])),
    ({}, .input (.written { id := 1, owner := 0, final := false, live := true } [])),
    ({ handshake := { finished := true, output := true } }, .input (.read 5)),
    ({}, .input (.written { id := 2, owner := 0, final := true, live := true } [])), ({}, .ret)]

/-- The user connects once more. -/
def shakenAgain : List (Oracle × Move) := shaken.concat ({}, .op (.connect false))

/-- The second connect makes the error of the first connection pass. -/
theorem reconnecting_reportsError : ∃ s, (fresh true).run shakenAgain = some s ∧ s.ReportsError [.other 110] := by
  refine ⟨_, rfl, ?_⟩
  apply (State.reportsError_iff _ _ rfl rfl rfl (by decide) (by decide)).mpr
  decide

/-- A client reads after its handshake, the backend reports an error, and the user hears nothing. -/
theorem shaken_silent :
    ∃ s t, (fresh true).run shaken = some s ∧ s.status = .terminal ∧ s.connected = true ∧
      s.step ({}, .input (.readError [.other 110])) = some t ∧ t.trace = s.trace ∧ ¬ s.ReportsError [.other 110] := by
  refine ⟨_, _, rfl, rfl, rfl, rfl, rfl, ?_⟩
  unfold State.ReportsError
  decide

end UniEvent.Ssl
