import UniEvent.Proofs.Ssl
import UniEvent.Program.Machine

/-! # The end of the input is reported once

`Stream::handle_eof` clears `IN_CONNECTED` before it fires `eof_event`, and the backend reports the end of the input
once. A clean close that `SSL_read` reports goes to `NextFilter::handle_eof`, past the stream: the flag stays, and the
end of the connection below is reported on top of it. Where `SSL_read` reports none, a call that is not about the end of
the input is `Quiet`.
-/

namespace UniEvent.Ssl

/-- How often `eof_event` has fired since the last successful connect or accept, or the last reset. -/
def eofs : List Event → ℕ
  | [] => 0
  | .eofEvent :: trace => eofs trace + 1
  | .connected :: _ => 0
  | .reset :: _ => 0
  | _ :: trace => eofs trace

namespace State

variable {s t u : State} {err : ErrorCode}

/-- No `eof_event` has come, and `IN_CONNECTED` was not set, or the count has started again, or `SSL_read` has reported
a clean close. -/
structure Quiet (s t : State) : Prop where
  grows : s.trace <:+ t.trace
  still : .closed ∈ t.trace ∨ eofs t.trace = 0 ∨ (t.eofSeen = s.eofSeen ∧ eofs t.trace = eofs s.trace ∧
    (t.flags.inConnected = true → s.flags.inConnected = true))

theorem Quiet.refl (s : State) : Quiet s s := ⟨List.suffix_refl _, .inr (.inr ⟨rfl, rfl, id⟩)⟩

theorem Quiet.trans (first : Quiet s t) (second : Quiet t u) : Quiet s u := by
  constructor
  · exact first.grows.trans second.grows
  · rcases second.still with closed | started | ⟨seen, count, flag⟩
    · exact .inl closed
    · exact .inr (.inl started)
    · rcases first.still with closed | started | ⟨seenBefore, countBefore, flagBefore⟩
      · exact .inl (second.grows.mem closed)
      · right
        left
        rw [count, started]
      · right
        right
        constructor
        · rw [seen, seenBefore]
        · exact ⟨count.trans countBefore, flagBefore ∘ flag⟩

/-- Only the trace, the flags and what the backend has reported matter. -/
theorem Quiet.of_eq (trace : t.trace = s.trace) (flags : t.flags = s.flags) (seen : t.eofSeen = s.eofSeen) :
    Quiet s t := by
  constructor
  · exact trace ▸ List.suffix_refl _
  · right
    right
    rw [trace, flags]
    exact ⟨seen, rfl, id⟩

theorem quiet_setFlags {flags : Flags} (kept : flags.inConnected = true → s.flags.inConnected = true) :
    Quiet s (s.setFlags flags) := ⟨List.suffix_refl _, .inr (.inr ⟨rfl, rfl, kept⟩)⟩

theorem Quiet.log {event : Event} (quiet : Quiet s t) (other : event ≠ .eofEvent) : Quiet s (t.log event) := by
  apply quiet.trans
  constructor
  · exact List.suffix_cons event t.trace
  · right
    cases event with
    | eofEvent => exact absurd rfl other
    | connected => exact .inl rfl
    | reset => exact .inl rfl
    | _ => exact .inr ⟨rfl, rfl, id⟩

/-! ### The stream -/

theorem quiet_startReading (s : State) : Quiet s s.startReading.2 := by
  unfold startReading
  split
  · exact .refl s
  · split
    · exact .refl s
    · exact quiet_setFlags id

section

variable (s)

private theorem quiet_readStop : Quiet s s.readStop := quiet_setFlags id

private theorem quiet_setConnectResult (ok : Bool) : Quiet s (s.setConnectResult ok).2 := by
  unfold setConnectResult
  dsimp only
  split
  · have started (t : State) (same : t.trace = s.trace) : Quiet s (t.log .connected) :=
      ⟨same ▸ List.suffix_cons _ _, .inr (.inl rfl)⟩
    split
    · apply Quiet.trans (started _ ?_) (quiet_startReading _)
      rfl
    · apply started
      rfl
  · exact quiet_setFlags id

theorem quiet_finish (attempt : Attempt) : Quiet s (s.finish attempt) := by
  unfold finish
  dsimp only
  split
  · exact Quiet.log (.of_eq rfl rfl rfl) (by nofun)
  · exact Quiet.log (.of_eq rfl rfl rfl) (by nofun)

theorem quiet_abort : Quiet s s.abort := .of_eq rfl rfl rfl

private theorem quiet_finalizeHandleConnect (err : ErrorCode) (request : Option ℕ) :
    Quiet s (s.finalizeHandleConnect err request).1 := by
  unfold finalizeHandleConnect
  split
  · split
    · exact (quiet_setConnectResult s _).trans (quiet_finish _ _)
    · exact quiet_abort s
  · exact quiet_abort s

private theorem quiet_finalizeHandleConnection (err : ErrorCode) (request : Option ℕ) :
    Quiet s (s.finalizeHandleConnection err request).1 := by
  unfold finalizeHandleConnection
  have set := quiet_setConnectResult s (err = [])
  dsimp only
  split
  · split
    · exact set.trans (quiet_finish _ _)
    · exact set.trans (quiet_abort _)
  · exact set.trans (quiet_abort _)
  · exact set

theorem quiet_finalizeHandleRead (err : ErrorCode) : Quiet s (s.finalizeHandleRead err).1 :=
  (Quiet.refl s).log (by nofun)

/-! ### The filter -/

theorem quiet_filterReset : Quiet s s.filterReset := by
  unfold filterReset
  split
  · exact .refl s
  · exact .of_eq rfl rfl rfl

private theorem quiet_passConnect (err : ErrorCode) (request : Option ℕ) : Quiet s (s.passConnect err request).1 :=
  ((Quiet.refl s).log (by nofun)).trans (quiet_finalizeHandleConnect _ _ _)

private theorem quiet_passConnection (err : ErrorCode) (request : Option ℕ) :
    Quiet s (s.passConnection err request).1 :=
  ((Quiet.refl s).log (by nofun)).trans (quiet_finalizeHandleConnection _ _ _)

private theorem quiet_conclude (err : ErrorCode) : Quiet s (s.conclude err) := by
  have stopped : Quiet s s.filterReadStop := by
    unfold filterReadStop
    split
    · exact .refl s
    · exact quiet_readStop s
  exact stopped.trans (.of_eq rfl rfl rfl)

private theorem quiet_passOutcome (err : ErrorCode) (request : Option ℕ) : Quiet s (s.passOutcome err request).1 := by
  unfold passOutcome
  split
  · exact quiet_passConnect s err request
  · split
    · exact quiet_passConnection s err request
    · exact .refl s

theorem quiet_negotiationFinished (err : ErrorCode) : Quiet s (s.negotiationFinished err).1 := by
  unfold negotiationFinished
  split
  · exact .refl s
  · split
    · exact .of_eq rfl rfl rfl
    · exact (quiet_conclude s err).trans (quiet_passOutcome _ _ _)

theorem quiet_subreqWrite (final : Bool) : Quiet s (s.subreqWrite final) := by
  unfold subreqWrite
  split
  · exact quiet_abort s
  · split
    · exact quiet_abort s
    · exact .of_eq rfl rfl rfl

private theorem quiet_handshaken : Quiet s s.handshaken.1.1 := by
  unfold handshaken
  split
  · exact quiet_negotiationFinished s _
  · split
    · split
      · exact quiet_subreqWrite s true
      · exact quiet_negotiationFinished s []
    · split
      · exact quiet_subreqWrite s false
      · exact .refl s

private theorem quiet_negotiate : Quiet s s.negotiate.1.1 := by
  unfold negotiate
  split
  · have entered : Quiet s { s with status := .negotiating } := .of_eq rfl rfl rfl
    have begun := entered.trans (quiet_startReading _)
    split
    · rename_i started equation
      rw [equation] at begun
      have shaken : Quiet started started.doHandshake := .of_eq rfl rfl rfl
      exact begun.trans (shaken.trans (quiet_handshaken _))
    · rename_i failed started equation
      rw [equation] at begun
      exact begun.trans (quiet_negotiationFinished _ _)
  · exact quiet_abort s

/-- A clean close is the one way to `eof_event` that is not `Stream::handle_eof`. -/
theorem quiet_decode : Quiet s s.decode.1 := by
  unfold decode
  split
  · exact .refl s
  · have read : Quiet s s.sslRead := .of_eq rfl rfl rfl
    split
    · exact read.trans (quiet_finalizeHandleRead _ _)
    · exact read
    · constructor
      · exact (List.suffix_cons _ _).trans (List.suffix_cons _ _)
      · left
        exact List.mem_cons_of_mem _ List.mem_cons_self
    · exact read.trans (quiet_subreqWrite _ _)
    · exact read.trans (quiet_finalizeHandleRead _ _)

theorem quiet_decodePending (pending : ℕ) : Quiet s (s.decodePending pending).1 := by
  unfold decodePending
  split
  · exact .refl s
  · exact quiet_decode s

end

private theorem quiet_andThen {call : State × List Frame} {next : State → State × List Frame} (frame : Frame)
    (first : Quiet s call.1) (rest : ∀ t, Quiet s t → Quiet s (next t).1) : Quiet s (andThen call frame next).1 := by
  unfold andThen
  split
  · exact first
  · split
    · exact rest _ first
    · exact first

section

variable (s)

private theorem quiet_filterReadBytes (length : ℕ) : Quiet s (s.filterReadBytes length).1 := by
  unfold filterReadBytes
  dsimp only
  have appended : Quiet s (s.setBuf length) := .of_eq rfl rfl rfl
  split
  · exact appended.trans (quiet_decodePending _ _)
  · apply quiet_andThen
    · exact appended.trans (quiet_negotiate _)
    · intro t quiet
      exact quiet.trans (quiet_decodePending _ _)

private theorem quiet_filterReadError (err : ErrorCode) : Quiet s (s.filterReadError err).1 := by
  unfold filterReadError
  split
  · exact .refl s
  · split
    · exact quiet_negotiationFinished s err
    · exact quiet_finalizeHandleRead s err

private theorem quiet_filterHandleRead (length : ℕ) (err : ErrorCode) : Quiet s (s.filterHandleRead length err).1 := by
  unfold filterHandleRead
  split
  · exact quiet_finalizeHandleRead s err
  · split
    · split
      · exact quiet_filterReadError s err
      · exact quiet_filterReadBytes s length
    · exact quiet_abort s

private theorem quiet_finalWritten : Quiet s s.finalWritten.1 := by
  unfold finalWritten
  split
  · exact quiet_filterHandleRead s 0 []
  · exact .refl s

private theorem quiet_clearOutConnected : Quiet s s.clearOutConnected := quiet_setFlags id

private theorem quiet_subreqDone (err : ErrorCode) (write : Write) : Quiet s (s.subreqDone err write) := by
  have closed : Quiet s (if .brokenPipe ∈ err then s.clearOutConnected else s) := by
    split
    · exact quiet_clearOutConnected s
    · exact .refl s
  exact closed.trans (.of_eq rfl rfl rfl)

private theorem quiet_handleWrite (err : ErrorCode) (write : Write) : Quiet s (s.handleWrite err write).1 := by
  have done := quiet_subreqDone s err write
  unfold handleWrite
  split
  · exact done.trans (quiet_negotiationFinished _ _)
  · split
    · apply quiet_andThen
      · exact done.trans (quiet_negotiationFinished _ _)
      · intro u quiet
        exact quiet.trans (quiet_finalWritten u)
    · exact done

private theorem quiet_startSslConnection (profile : Profile) (request : ℕ) :
    Quiet s (s.startSslConnection profile request).1 := by
  have sourced : Quiet s { s with source := some request, profile := profile } := .of_eq rfl rfl rfl
  exact sourced.trans (quiet_negotiate _)

private theorem quiet_filterHandleConnect (err : ErrorCode) (request : ℕ) :
    Quiet s (s.filterHandleConnect err request).1 := by
  unfold filterHandleConnect
  split
  · exact (quiet_filterReset s).trans (quiet_passConnect _ _ _)
  · exact (quiet_filterReset s).trans (quiet_startSslConnection _ _ _)

theorem quiet_handleConnect (err : ErrorCode) (attempt : Attempt) : Quiet s (s.handleConnect err attempt).1 := by
  have answered : Quiet s (s.answered err attempt) := ⟨List.suffix_refl _, .inr (.inr ⟨rfl, rfl, id⟩)⟩
  unfold handleConnect
  split
  · exact answered.trans (quiet_filterHandleConnect _ _ _)
  · exact answered.trans (quiet_finalizeHandleConnect _ _ _)

private theorem quiet_cancel (err : ErrorCode) (attempt : Attempt) : Quiet s (s.cancel err attempt).1 := by
  unfold cancel
  split
  · exact quiet_finish s attempt
  · split
    · split
      · exact quiet_handleWrite s err _
      · exact quiet_handleConnect s err attempt
    · exact quiet_handleConnect s err attempt

private theorem quiet_doReset (clear : Bool) : Quiet s (s.doReset clear) := by
  constructor
  · exact (quiet_filterReset s).grows.trans (List.suffix_cons _ _)
  · exact .inr (.inl rfl)

private theorem quiet_resume (frame : Frame) : Quiet s (s.resume frame).1 := by
  cases frame with
  | user => exact .refl s
  | decode =>
    unfold resume
    dsimp only
    split
    · exact quiet_decode s
    · exact .refl s
  | negotiated pending => exact quiet_decodePending s pending
  | finalWritten => exact quiet_finalWritten s
  | reset clear => exact quiet_doReset s clear

end

private theorem quiet_unwind (frames : List Frame) (s : State) : Quiet s (unwind frames s) := by
  induction frames generalizing s with
  | nil => exact .of_eq rfl rfl rfl
  | cons frame rest ih =>
    by_cases callback : frame = .user
    · rw [callback]
      exact .of_eq rfl rfl rfl
    · rw [unwind_frame rest s callback]
      split
      · exact (quiet_resume s frame).trans (.of_eq rfl rfl rfl)
      · exact (quiet_resume s frame).trans (ih _)

/-! ### Every run -/

/-- The count with what bounds it. -/
structure Counted (s : State) : Prop where
  once : eofs s.trace ≤ 1
  gone : 0 < eofs s.trace → s.flags.inConnected = false
  unseen : s.eofSeen = false → eofs s.trace = 0

theorem counted_of_none (none : eofs s.trace = 0) : Counted s := by
  constructor
  · omega
  · omega
  · intro _
    exact none

/-- The end of the input was reported at most once, unless there was a clean close. -/
def Once (s : State) : Prop := .closed ∈ s.trace ∨ Counted s

theorem Once.quiet (once : Once s) (quiet : Quiet s t) : Once t := by
  rcases once with closed | counted
  · exact .inl (quiet.grows.mem closed)
  · rcases quiet.still with closed | started | ⟨seen, count, flag⟩
    · exact .inl closed
    · exact .inr (counted_of_none started)
    · right
      constructor
      · rw [count]
        exact counted.once
      · intro fired
        rw [count] at fired
        rw [Bool.eq_false_iff]
        intro set
        exact Bool.eq_false_iff.mp (counted.gone fired) (flag set)
      · intro unseen
        rw [count]
        exact counted.unseen (seen ▸ unseen)

/-- `Stream::handle_eof` clears the flag before it passes the end of the input on. -/
theorem handleEof_cases (s : State) : Quiet s s.handleEof.1 ∨
    (s.handleEof.1.trace = .eofEvent :: s.trace ∧ s.handleEof.1.eofSeen = s.eofSeen ∧
      s.handleEof.1.flags.inConnected = false) := by
  have cleared : Quiet s s.clearInConnected := quiet_setFlags nofun
  unfold handleEof
  split
  · exact .inl (.refl s)
  · split
    · unfold filterHandleEof
      split
      · exact .inr ⟨rfl, rfl, rfl⟩
      · exact .inl (cleared.trans (quiet_negotiationFinished _ _))
      · exact .inl cleared
    · exact .inr ⟨rfl, rfl, rfl⟩

/-- The first report. -/
theorem Once.handleEof (once : Once s) (unseen : s.eofSeen = false) :
    Once ({ s with eofSeen := true }).handleEof.1 := by
  have reported : Once { s with eofSeen := true } := by
    rcases once with closed | counted
    · exact .inl closed
    · exact .inr (counted_of_none (counted.unseen unseen))
  rcases handleEof_cases { s with eofSeen := true } with quiet | ⟨fired, seen, cleared⟩
  · exact reported.quiet quiet
  · rcases once with closed | counted
    · left
      rw [fired]
      exact List.mem_cons_of_mem _ closed
    · right
      have none := counted.unseen unseen
      constructor
      · rw [fired, eofs]
        exact Nat.succ_le_succ (Nat.le_of_eq none)
      · intro _
        exact cleared
      · rw [seen]
        nofun

private theorem quiet_handleRead (s : State) (length : ℕ) (other : err ≠ [.connectionReset]) :
    Quiet s (s.handleRead length err).1 := by
  unfold handleRead
  rw [if_neg other]
  split
  · exact .refl s
  · split
    · exact quiet_filterHandleRead s length err
    · exact quiet_finalizeHandleRead s err

private theorem quiet_newFilter (s : State) (ssl : Bool) : Quiet s (s.newFilter ssl) := .of_eq rfl rfl rfl

private theorem quiet_resetNow (s : State) (clear : Bool) : Quiet s (s.resetNow clear) :=
  (quiet_doReset s clear).trans (.of_eq rfl rfl rfl)

private theorem quiet_afterCancel (clear : Bool) (call : State × List Frame) :
    Quiet call.1 (afterCancel clear call) := by
  unfold afterCancel
  split
  · exact .refl _
  · split
    · exact quiet_abort _
    · split
      · exact quiet_resetNow _ _
      · exact .of_eq rfl rfl rfl

private theorem quiet_userReset (s : State) (clear : Bool) : Quiet s (s.userReset clear) := by
  unfold userReset
  split
  · exact quiet_resetNow s clear
  · exact (quiet_cancel s _ _).trans (quiet_afterCancel _ _)

private theorem quiet_begin (s : State) (server kept : Bool) : Quiet s (s.begin server kept) :=
  Quiet.log (.of_eq rfl rfl rfl) (by nofun)

theorem Called.quiet {op : Op} (called : Called s op t) : Quiet s t := by
  cases called with
  | readStart =>
    have wanted : Quiet s (s.setFlags { s.flags with dontRead := false, ignoreRead := false }) := quiet_setFlags id
    exact wanted.trans (quiet_startReading _)
  | readStop => exact quiet_readStop s
  | readIgnore => exact quiet_setFlags id
  | reset clear => exact quiet_userReset s clear
  | connect kept _ _ =>
    have connecting : Quiet s (s.setFlags { s.flags with connecting := true }) := quiet_setFlags id
    exact connecting.trans (quiet_begin _ _ _)
  | dropServer => exact .of_eq rfl rfl rfl
  | refused on => exact .refl s
  | useSsl on _ _ _ => exact quiet_newFilter s on

private theorem quiet_accept (s : State) (ssl : Bool) : Quiet s (s.accept ssl).1 := by
  unfold accept
  dsimp only
  have begun : Quiet s ((s.newFilter ssl).setFlags { s.flags with connecting := true, established := true }) :=
    (quiet_newFilter s ssl).trans (quiet_setFlags id)
  generalize (s.newFilter ssl).setFlags { s.flags with connecting := true, established := true } = t at begun
  split
  · have served : Quiet t { t with serverAlive := true } := .of_eq rfl rfl rfl
    exact begun.trans (served.trans ((quiet_begin _ _ _).trans (quiet_startSslConnection _ _ _)))
  · exact begun.trans (quiet_finalizeHandleConnection _ _ _)

theorem Handled.once {input : Input} {call : State × List Frame} (handled : Handled s input call)
    (once : Once s) : Once call.1 := by
  cases handled with
  | accept ssl => exact once.quiet (quiet_accept s ssl)
  | connected err => exact once.quiet (quiet_handleConnect s err _)
  | read length => exact once.quiet (quiet_handleRead s length nofun)
  | connectionReset _ unseen => exact once.handleEof unseen
  | readError _ _ other => exact once.quiet (quiet_handleRead s 0 other)
  | eof _ unseen => exact once.handleEof unseen
  | written => exact once.quiet (quiet_handleWrite s _ _)
  | destroyed => exact once.quiet (quiet_abort s)
  | timeout => exact once.quiet (quiet_cancel s _ _)
  | outClosed => exact once.quiet (quiet_clearOutConnected s)

theorem Once.step {move : Oracle × Move} (once : Once s) (stepped : s.step move = some t) : Once t := by
  obtain ⟨oracle, move⟩ := move
  have asked : Once (s.ask oracle) := once.quiet (.of_eq rfl rfl rfl)
  have effect : Stepped (s.ask oracle) move t := (step_cases stepped).2
  cases effect with
  | op _ called => exact asked.quiet called.quiet
  | ret => exact asked.quiet (quiet_unwind _ _)
  | input _ handled => exact (handled.once asked).quiet (.of_eq rfl rfl rfl)

/-- In every run in which `SSL_read` reports no clean close, `eof_event` fires at most once between a successful connect
or accept and the next reset, and then `IN_CONNECTED` is clear. -/
theorem eof_at_most_once {ssl : Bool} {moves : List (Oracle × Move)} (run : (fresh ssl).run moves = some s)
    (unclosed : .closed ∉ s.trace) :
    eofs s.trace ≤ 1 ∧ (0 < eofs s.trace → s.flags.inConnected = false) := by
  have initially : Once (fresh ssl) := .inr (counted_of_none rfl)
  have once : Once s := Program.foldlM_invariant (fun _ _ _ => Once.step) initially run
  rcases once with closed | counted
  · exact absurd closed unclosed
  · exact ⟨counted.once, counted.gone⟩

end State

/-- The server accepts a connection, reads, and gets the end of the input. -/
def served : List (Oracle × Move) :=
  [({ handshake := { finished := true } }, .input (.accept true)), ({}, .ret),
    ({ read := .data }, .input (.read 9)), ({}, .ret), ({}, .input .eof), ({}, .ret)]

theorem served_eof_once : ∃ s, (fresh false).run served = some s ∧ eofs s.trace = 1 ∧
    eofs s.trace ≤ 1 ∧ (0 < eofs s.trace → s.flags.inConnected = false) := by
  have ran : (fresh false).run served = some _ := rfl
  exact ⟨_, ran, rfl, State.eof_at_most_once ran (by decide)⟩

/-- The peer closes TLS, and then the connection. -/
def closedTwice : List (Oracle × Move) :=
  [({ handshake := { finished := true } }, .input (.accept true)), ({}, .ret),
    ({ read := .zeroReturn }, .input (.read 9)), ({}, .ret), ({}, .input .eof)]

theorem closedTwice_eof_twice : (∃ s, (fresh false).run (closedTwice.take 4) = some s ∧ eofs s.trace = 1 ∧
      s.flags.inConnected = true) ∧ ∃ s, (fresh false).run closedTwice = some s ∧ eofs s.trace = 2 := by
  constructor
  · exact ⟨_, rfl, rfl, rfl⟩
  · exact ⟨_, rfl, rfl⟩

end UniEvent.Ssl
