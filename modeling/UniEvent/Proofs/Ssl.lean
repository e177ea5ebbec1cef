import UniEvent.Model.Ssl

/-! # What a move does

The moves of a stream with an SSL filter, case by case with their guards.
-/

namespace UniEvent.Ssl.State

variable {s t : State}

theorem unwind_frame {frame : Frame} (rest : List Frame) (s : State) (waiting : frame ≠ .user) :
    unwind (frame :: rest) s =
      if (s.resume frame).1.aborted = true ∨ (s.resume frame).2 ≠ []
      then { (s.resume frame).1 with stack := (s.resume frame).2 ++ rest } else unwind rest (s.resume frame).1 := by
  cases frame with
  | user => exact absurd rfl waiting
  | decode => rfl
  | negotiated => rfl
  | finalWritten => rfl
  | reset => rfl

/-- A call of the user. -/
inductive Called (s : State) : Op → State → Prop where
  | readStart : Called s .readStart s.readStart
  | readStop : Called s .readStop s.readStop
  | readIgnore : Called s .readIgnore s.readIgnore
  | reset (clear : Bool) : Called s (.reset clear) (s.userReset clear)
  | connect (kept : Bool) (idle : s.attempt = none) (unlocked : ∀ clear, Frame.reset clear ∉ s.stack) :
    Called s (.connect kept) (s.connect kept)
  | dropServer : Called s .dropServer { s with serverAlive := false }
  | refused (on : Bool) : Called s (.useSsl on) s
  | useSsl (on : Bool) (disconnected : s.flags.connecting = false ∧ s.flags.established = false)
    (unwritten : s.writes = []) (unread : s.flags.reading = false) : Called s (.useSsl on) (s.newFilter on)

private theorem userOp_cases {op : Op} (called : s.userOp op = some t) : Called s op t := by
  cases op with
  | readStart =>
    cases called
    exact .readStart
  | readStop =>
    cases called
    exact .readStop
  | readIgnore =>
    cases called
    exact .readIgnore
  | reset clear =>
    cases called
    exact .reset clear
  | connect kept =>
    simp only [userOp] at called
    split at called <;> cases called
    rename_i free
    apply Called.connect kept free.1
    intro clear
    cases clear
    · exact free.2.1
    · exact free.2.2
  | dropServer =>
    cases called
    exact .dropServer
  | useSsl on =>
    simp only [userOp] at called
    split at called
    · cases called
      exact .refused on
    · split at called <;> cases called
      rename_i inactive unused
      apply Called.useSsl on ?_ unused.1 unused.2
      simpa using inactive

/-- An event of the loop. -/
inductive Handled (s : State) : Input → State × List Frame → Prop where
  | accept (ssl : Bool) (unused : s.status = .initial) (idle : s.attempt = none) (unwritten : s.writes = [])
    (disconnected : s.flags.connecting = false ∧ s.flags.established = false) : Handled s (.accept ssl) (s.accept ssl)
  | connected {attempt : Attempt} (err : ErrorCode) (current : s.attempt = some attempt) (waiting : attempt.tcp = true)
    (once : err = [] → s.connected = false) : Handled s (.connected err) (s.handleConnect err attempt)
  | read (length : ℕ) (reading : s.flags.reading = true) : Handled s (.read length) (s.handleRead length [])
  | connectionReset (reading : s.flags.reading = true) (unseen : s.eofSeen = false) :
    Handled s (.readError [.connectionReset]) ({ s with eofSeen := true }).handleEof
  | readError {err : ErrorCode} (reading : s.flags.reading = true) (failed : err ≠ [])
    (other : err ≠ [.connectionReset]) : Handled s (.readError err) (s.handleRead 0 err)
  | eof (reading : s.flags.reading = true) (unseen : s.eofSeen = false) :
    Handled s .eof ({ s with eofSeen := true }).handleEof
  | written {write : Write} {err : ErrorCode} (outstanding : write ∈ s.writes) (live : err ≠ [] ∨ write.live = true)
    (filtered : s.ssl = true) : Handled s (.written write err) (s.handleWrite err write)
  | destroyed {write : Write} {err : ErrorCode} (outstanding : write ∈ s.writes) (plain : s.ssl = false) :
    Handled s (.written write err) (s.abort, [])
  | timeout {attempt : Attempt} (current : s.attempt = some attempt) (client : attempt.server = false) :
    Handled s .timeout (s.cancel [.timedOut] attempt)
  | outClosed (out : s.flags.outConnected = true) : Handled s .outClosed (s.clearOutConnected, [])

private theorem handle_cases {input : Input} {call : State × List Frame} (handled : s.handle input = some call) :
    Handled s input call := by
  cases input with
  | accept ssl =>
    simp only [State.handle] at handled
    split at handled <;> cases handled
    rename_i free
    exact .accept ssl free.1 free.2.1 free.2.2.1 free.2.2.2
  | connected err =>
    simp only [State.handle] at handled
    split at handled
    · split at handled <;> cases handled
      rename_i current free
      exact .connected err current free.1 free.2
    · cases handled
  | read length =>
    simp only [State.handle] at handled
    split at handled <;> cases handled
    rename_i reading
    exact .read length reading
  | readError err =>
    simp only [State.handle] at handled
    split at handled
    · rename_i reading
      split at handled
      · rename_i reset
        split at handled <;> cases handled
        rename_i unseen
        have passed := Handled.connectionReset reading.1 (Bool.eq_false_iff.mpr unseen)
        rwa [handleRead, if_pos reset, reset]
      · rename_i other
        cases handled
        exact .readError reading.1 reading.2 other
    · cases handled
  | eof =>
    simp only [State.handle] at handled
    split at handled <;> cases handled
    rename_i reading
    exact .eof reading.1 reading.2
  | written write err =>
    simp only [State.handle] at handled
    split at handled
    · rename_i outstanding
      split at handled <;> cases handled
      · rename_i filtered
        exact .written outstanding.1 outstanding.2 filtered
      · rename_i plain
        exact .destroyed outstanding.1 (Bool.eq_false_iff.mpr plain)
    · cases handled
  | timeout =>
    simp only [State.handle] at handled
    split at handled
    · split at handled <;> cases handled
      rename_i current client
      exact .timeout current client
    · cases handled
  | outClosed =>
    simp only [State.handle] at handled
    split at handled <;> cases handled
    rename_i out
    exact .outClosed out

/-- A move. -/
inductive Stepped (s : State) : Move → State → Prop where
  | op {op : Op} {t : State} (turn : s.stack = [] ∨ s.stack.head? = some .user) (called : Called s op t) :
    Stepped s (.op op) t
  | ret {rest : List Frame} (top : s.stack = .user :: rest) : Stepped s .ret (unwind rest s)
  | input {input : Input} {call : State × List Frame} (idle : s.stack = []) (handled : Handled s input call) :
    Stepped s (.input input) (push call)

theorem step_cases {move : Oracle × Move} (stepped : s.step move = some t) :
    s.aborted = false ∧ Stepped (s.ask move.1) move.2 t := by
  unfold State.step at stepped
  split at stepped
  · cases stepped
  · rename_i alive
    constructor
    · exact Bool.eq_false_iff.mpr alive
    · obtain ⟨oracle, move⟩ := move
      cases move with
      | op op =>
        simp only [act] at stepped
        split at stepped
        · rename_i turn
          exact .op turn (userOp_cases stepped)
        · cases stepped
      | ret =>
        simp only [act] at stepped
        split at stepped
        · rename_i rest top
          cases stepped
          exact .ret top
        · cases stepped
      | input input =>
        simp only [act] at stepped
        split at stepped
        · rename_i idle
          obtain ⟨call, handled, pushed⟩ := Option.map_eq_some_iff.mp stepped
          cases pushed
          exact .input idle (handle_cases handled)
        · cases stepped

end UniEvent.Ssl.State
