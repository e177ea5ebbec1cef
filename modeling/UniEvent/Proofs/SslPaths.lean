import UniEvent.Proofs.SslShape

/-! # The paths of the calls

Each call of the filter and of the stream is a path of steps.
-/

namespace UniEvent.Ssl.State

variable {late : Attempt → Prop} {s t u : State} {err : ErrorCode} {rest : List Frame} {frame : Frame}

/-! ### The rest of `handle_read` and `handle_write` -/

private theorem subreqWrite_on (s : State) (final : Bool) (stack : List Frame) :
    (s.on stack).subreqWrite final = (s.subreqWrite final).on stack := by
  unfold subreqWrite on
  dsimp only
  split
  · rfl
  · split
    · rfl
    · rfl

private theorem subreqWrite_kept (s : State) (final : Bool) :
    (s.subreqWrite final).stack = s.stack ∧ (s.subreqWrite final).drained = s.drained := by
  unfold subreqWrite
  split
  · exact ⟨rfl, rfl⟩
  · split
    · exact ⟨rfl, rfl⟩
    · exact ⟨rfl, rfl⟩

theorem path_subreqWrite {final : Bool} (alive : s.aborted = false)
    (ready : final = true → s.status = .negotiating ∧ s.initFinished = true) : Path late s (s.subreqWrite final) := by
  unfold subreqWrite
  split
  · exact .one alive .abort
  · rename_i owner own
    split
    · exact .one alive .abort
    · rename_i first
      refine .one alive (.write own ?_ ready)
      simpa using first

private theorem decode_stack (s : State) : s.decode.1.stack = s.stack := by
  unfold decode
  split
  · rfl
  · split
    · rfl
    · rfl
    · rfl
    · exact (subreqWrite_kept s.sslRead false).1
    · rfl

private theorem decodePending_stack (s : State) (pending : ℕ) : (s.decodePending pending).1.stack = s.stack := by
  unfold decodePending
  split
  · rfl
  · exact decode_stack s

section

variable (alive : s.aborted = false)

include alive

/-- The loop ends, or does not start. -/
theorem path_leave (work : frame.work = true)
    (reason : s.status ≠ .terminal ∨ s.drained = true ∨ frame = .decode ∧ s.wantread = false ∨ frame = .negotiated 0 ∨
      frame = .finalWritten ∧ (s.bio = 0 ∨ s.serverAlive = false)) :
    Path late (s.on (frame :: rest)) (s.on rest) :=
  .one (s := s.on (frame :: rest)) alive (.leave rfl work reason)

theorem path_event (err : ErrorCode) : Path late (s.on rest) ((s.finalizeHandleRead err).1.on (.user :: rest)) :=
  .one (s := s.on rest) alive (.event err)

private theorem path_eof : Path late (s.on rest) (s.finalizeHandleEof.1.on (.user :: rest)) :=
  .one (s := s.on rest) alive .eof

/-- The loop has its frame on the stack while it runs. -/
theorem leads_decode (ended : s.status ≠ .negotiating) :
    Leads late (s.on (.decode :: rest)) (s.decode.1.on (s.decode.2 ++ rest)) := by
  unfold decode
  split
  · rename_i initial
    refine (path_leave alive rfl (.inl ?_)).leads
    rw [initial]
    nofun
  · rename_i begun
    have read : Path late (s.on (.decode :: rest)) (s.sslRead.on (.decode :: rest)) :=
      .one (s := s.on (.decode :: rest)) alive (.read rfl begun ended)
    split
    · exact (read.trans (path_event (s := s.sslRead) alive [])).leads
    · rename_i answer
      have drained : s.sslRead.drained = true := by simp [sslRead, answer]
      exact (read.trans (path_leave alive rfl (.inr (.inl drained)))).leads
    · rename_i answer
      have drained : (s.sslRead.log .closed).drained = true := by simp [sslRead, log, answer]
      have closed : Path late (s.sslRead.on (.decode :: rest)) ((s.sslRead.log .closed).on (.decode :: rest)) :=
        .one (s := s.sslRead.on (.decode :: rest)) alive .closed
      have left : Path late ((s.sslRead.log .closed).on (.decode :: rest)) ((s.sslRead.log .closed).on rest) :=
        path_leave alive rfl (.inr (.inl drained))
      exact (read.trans (closed.trans (left.trans (path_eof alive)))).leads
    · rename_i answer
      have wrote : Path late (s.sslRead.on (.decode :: rest)) ((s.sslRead.subreqWrite false).on (.decode :: rest)) := by
        rw [← subreqWrite_on]
        exact path_subreqWrite alive (by rintro ⟨⟩)
      cases running : (s.sslRead.subreqWrite false).aborted with
      | true => exact (read.trans wrote).leads_aborted ⟨running, running⟩ rfl
      | false =>
        have drained : (s.sslRead.subreqWrite false).drained = true := by
          rw [(subreqWrite_kept s.sslRead false).2]
          simp [sslRead, answer]
        exact (read.trans (wrote.trans (path_leave running rfl (.inr (.inl drained))))).leads
    · rename_i answer
      have drained : s.sslRead.drained = true := by simp [sslRead, answer]
      have left : Path late (s.sslRead.on (.decode :: rest)) (s.sslRead.on rest) :=
        path_leave alive rfl (.inr (.inl drained))
      exact (read.trans (left.trans (path_event (s := s.sslRead) alive _))).leads

theorem leads_decodePending {pending : ℕ} (work : frame.work = true)
    (skip : pending = 0 → frame = .negotiated 0) :
    Leads late (s.on (frame :: rest)) ((s.decodePending pending).1.on ((s.decodePending pending).2 ++ rest)) := by
  unfold decodePending
  split
  · rename_i reason
    refine (path_leave alive work ?_).leads
    rcases reason with none | negotiating
    · exact .inr (.inr (.inr (.inl (skip none))))
    · left
      rw [negotiating]
      nofun
  · rename_i due
    have ended : s.status ≠ .negotiating := fun negotiating => due (.inr negotiating)
    have relabeled : Path late (s.on (frame :: rest)) (s.on (.decode :: rest)) :=
      .one (s := s.on (frame :: rest)) alive (.relabel rfl work ended)
    exact .after relabeled (leads_decode alive ended)

end

private theorem filterReadBytes_finished {length : ℕ} (finished : s.initFinished = true) :
    s.filterReadBytes length = (s.setBuf length).decodePending ((s.setBuf length).bio + length) := by
  unfold filterReadBytes
  rw [finished]
  rfl

theorem leads_finalWritten (alive : s.aborted = false) (shaped : Shaped (s.on (.finalWritten :: rest))) :
    Leads late (s.on (.finalWritten :: rest)) (s.finalWritten.1.on (s.finalWritten.2 ++ rest)) ∧
      s.finalWritten.1.stack = s.stack := by
  unfold finalWritten
  split
  · rename_i due
    unfold filterHandleRead
    split
    · rename_i failed
      refine ⟨((path_leave alive rfl (.inl ?_)).trans (path_event alive [])).leads, rfl⟩
      rw [failed]
      nofun
    · rename_i unfailed
      split
      · have finished : s.initFinished = true := by
          rcases shaped.shaken List.mem_cons_self with empty | finished | failed
          · exact absurd empty due.1
          · exact finished
          · exact absurd failed unfailed
        rw [if_neg (by simp), filterReadBytes_finished finished]
        refine ⟨leads_decodePending (s := s.setBuf 0) alive rfl ?_, decodePending_stack _ _⟩
        exact fun none => absurd none due.1
      · have aborted : Path late (s.on (.finalWritten :: rest)) (s.abort.on (.finalWritten :: rest)) :=
          .one (s := s.on (.finalWritten :: rest)) alive .abort
        exact ⟨aborted.leads_aborted ⟨rfl, rfl⟩ rfl, rfl⟩
  · rename_i undue
    refine ⟨(path_leave alive rfl (.inr (.inr (.inr (.inr ⟨rfl, ?_⟩))))).leads, rfl⟩
    by_cases empty : s.bio = 0
    · exact .inl empty
    · exact .inr (Bool.eq_false_iff.mpr fun alive => undue ⟨empty, alive⟩)

private theorem doReset_on (s : State) (clear : Bool) (stack rest : List Frame) :
    ((s.on stack).doReset clear).on rest = (s.doReset clear).on rest := by
  by_cases initial : s.status = .initial
  · have first : (s.on stack).filterReset = s.on stack := if_pos initial
    have second : s.filterReset = s := if_pos initial
    unfold doReset
    rw [first, second]
    rfl
  · have first : (s.on stack).filterReset = (s.on stack).renew := if_neg initial
    have second : s.filterReset = s.renew := if_neg initial
    unfold doReset
    rw [first, second]
    rfl

private theorem leads_resume (alive : s.aborted = false) (waiting : frame ≠ .user)
    (shaped : Shaped (s.on (frame :: rest))) :
    Leads late (s.on (frame :: rest)) ((s.resume frame).1.on ((s.resume frame).2 ++ rest)) := by
  cases frame with
  | user => exact absurd rfl waiting
  | decode =>
    unfold resume
    dsimp only
    split
    · exact leads_decode alive (shaped.decoding List.mem_cons_self)
    · rename_i unwanted
      exact (path_leave alive rfl (.inr (.inr (.inl ⟨rfl, Bool.eq_false_iff.mpr unwanted⟩)))).leads
  | negotiated pending =>
    apply leads_decodePending alive rfl
    rintro rfl
    rfl
  | finalWritten => exact (leads_finalWritten alive shaped).1
  | reset clear =>
    have reset : Path late (s.on (.reset clear :: rest)) (((s.on (.reset clear :: rest)).doReset clear).on rest) :=
      .one (s := s.on (.reset clear :: rest)) alive (.reset rfl)
    rw [doReset_on] at reset
    exact reset.leads

/-- What follows a callback. -/
theorem leads_unwind (frames : List Frame) (s : State) (alive : s.aborted = false) (shaped : Shaped (s.on frames)) :
    Leads late (s.on frames) (unwind frames s) := by
  induction frames generalizing s with
  | nil => exact (Path.refl _).leads
  | cons frame rest ih =>
    by_cases callback : frame = .user
    · rw [callback]
      exact (Path.refl _).leads
    · have resumed : Leads late _ _ := leads_resume alive callback shaped
      rw [unwind_frame rest s callback]
      split
      · exact resumed
      · rename_i quiet
        rw [not_or, not_not] at quiet
        rw [quiet.2, List.nil_append] at resumed
        have running : (s.resume frame).1.aborted = false := Bool.eq_false_iff.mpr quiet.1
        have kept : True ∧ (_ ∨ Shaped _) :=
          resumed.keeps (A := fun _ => True) ⟨trivial, .inr shaped⟩ fun _ _ atom _ shaped =>
            ⟨trivial, atom.shaped shaped⟩
        have reshaped : Shaped ((s.resume frame).1.on rest) := by
          rcases kept.2 with aborted | reshaped
          · rw [show ((s.resume frame).1.on rest).aborted = _ from running] at aborted
            cases aborted
          · exact reshaped
        exact resumed.trans running (ih _ running reshaped)

/-! ### A handshake -/

/-- What `SslFilter::negotiate` does after `SSL_do_handshake`. -/
inductive Handshaken (s : State) : (State × List Frame) × ℕ → Prop where
  | finished {call : State × List Frame} {pending : ℕ} (err : ErrorCode) (outcome : Finished s err call)
    (settled : err = [] → s.initFinished = true ∧ pending = s.bio) : Handshaken s (call, pending)
  | wrote (final : Bool) (ready : final = true → s.initFinished = true) : Handshaken s ((s.subreqWrite final, []), 0)
  | waits : Handshaken s ((s, []), 0)

private theorem handshaken_cases (sourced : Sourced s) (negotiating : s.status = .negotiating) :
    Handshaken s s.handshaken := by
  have unended : s.status ≠ .terminal ∧ s.status ≠ .error := by
    rw [negotiating]
    exact ⟨nofun, nofun⟩
  unfold handshaken
  split
  · exact .finished _ (finished_cases sourced unended) (by rintro ⟨⟩)
  · split
    · rename_i finished
      split
      · exact .wrote true fun _ => finished
      · exact .finished _ (finished_cases sourced unended) fun _ => ⟨finished, rfl⟩
    · split
      · exact .wrote false nofun
      · exact .waits

/-- The stack is left alone, as long as the program runs. -/
theorem Finished.stack {call : State × List Frame} (finished : Finished s err call) (alive : call.1.aborted = false) :
    call.1.stack = s.stack := by
  cases finished with
  | again => rfl
  | passed _ _ _ passed => exact passed.stack
  | dead => exact (concluded s err).stack
  | aborted _ aborted =>
    rw [alive] at aborted
    cases aborted
  | nulled _ _ nulled => exact nulled.stack

/-- No handshake message of the attempt is outstanding, or it may be late. -/
def Early (late : Attempt → Prop) (s : State) : Prop :=
  ∀ attempt, s.attempt = some attempt → s.owns attempt = true → late attempt

section Handshake

variable {pending : ℕ} {call : State × List Frame}

/-- Before the handshake no last message was sent. -/
theorem Shaped.alone (shaped : Shaped s) (idle : s.stack = []) (unfailed : s.status ≠ .error)
    (unfinished : s.initFinished = false) : s.doHandshake.Alone := by
  intro write member final live
  exact absurd live (shaped.no_final idle unfailed unfinished member final)

variable (alive : s.aborted = false) (shaped : Shaped s) (idle : s.stack = []) (negotiating : s.status = .negotiating)
  (unfinished : s.initFinished = false) (early : Early late s)

include alive idle negotiating unfinished in
private theorem path_doHandshake : Path late s s.doHandshake := .one alive (.handshake idle negotiating unfinished)

include shaped idle negotiating unfinished in
private theorem handshaken_alone : s.doHandshake.Alone := by
  apply shaped.alone idle ?_ unfinished
  rw [negotiating]
  nofun

include alive shaped idle negotiating unfinished early in
/-- A handshake that starts has got no bytes yet. -/
theorem path_handshaken (empty : s.bio = 0) : Path late s (push s.doHandshake.handshaken.1) := by
  apply (path_doHandshake alive idle negotiating unfinished).trans
  have cases := handshaken_cases (shaped.doHandshake idle negotiating unfinished).sourced negotiating
  generalize s.doHandshake.handshaken = result at cases
  cases cases with
  | finished err outcome settled =>
    refine .one alive (.finished err negotiating ?_ early outcome)
    intro succeeded
    refine ⟨(settled succeeded).1, handshaken_alone shaped idle negotiating unfinished, .inl ?_⟩
    simp [doHandshake, empty]
  | wrote final ready => exact path_subreqWrite alive fun last => ⟨negotiating, ready last⟩
  | waits => exact .refl _

/-- The end of a handshake with what waits for it below. -/
theorem path_finished {stack : List Frame} (alive : s.aborted = false) (negotiating : s.status = .negotiating)
    (settled : err = [] → s.initFinished = true ∧ s.Alone ∧ (s.drained = true ∨ .negotiated s.bio ∈ stack))
    (early : Early late s) (outcome : Finished s err call) : Path late (s.on stack) (call.1.on (call.2 ++ stack)) :=
  have atom : Atom late (s.on stack) (call.1.on (call.2 ++ stack)) :=
    Atom.finished (s := s.on stack) err negotiating settled early (outcome.on stack)
  .one alive atom

/-- The frame that waits for the end of a handshake goes on with what it left. -/
theorem leads_andThen {next : State → State × List Frame} (kept : call.1.aborted = false → call.1.stack = [])
    (resumes :
      call.1.aborted = false → call.2 = [] →
      Leads late (call.1.on [frame]) ((next call.1).1.on ((next call.1).2 ++ [])) ∧
      (next call.1).1.stack = call.1.stack) :
    Leads late (call.1.on (call.2 ++ [frame])) (push (andThen call frame next)) := by
  unfold andThen
  split
  · rename_i aborted
    exact (Path.refl _).leads_aborted ⟨aborted, aborted⟩ rfl
  · rename_i running
    have running : call.1.aborted = false := Bool.eq_false_iff.mpr running
    split
    · rename_i quiet
      obtain ⟨resumed, stack⟩ := resumes running quiet
      rw [quiet]
      unfold push
      rw [stack, kept running]
      exact resumed
    · unfold push
      rw [kept running, List.append_nil]
      exact (Path.refl _).leads

include alive shaped idle negotiating unfinished early in
/-- The handshake goes on with bytes that were read. -/
theorem leads_handshaken : Leads late s (push (andThen s.doHandshake.handshaken.1
    (.negotiated s.doHandshake.handshaken.2) (decodePending · s.doHandshake.handshaken.2))) := by
  apply Leads.after (path_doHandshake alive idle negotiating unfinished)
  have cases := handshaken_cases (shaped.doHandshake idle negotiating unfinished).sourced negotiating
  generalize s.doHandshake.handshaken = result at cases
  cases cases with
  | @finished call pending err outcome settled =>
    have below : Path late s.doHandshake (s.doHandshake.on [.negotiated pending]) :=
      .one alive (.negotiate pending idle)
    have ended : Path late (s.doHandshake.on [.negotiated pending]) (call.1.on (call.2 ++ [.negotiated pending])) := by
      refine path_finished alive negotiating ?_ early outcome
      intro succeeded
      refine ⟨(settled succeeded).1, handshaken_alone shaped idle negotiating unfinished, .inr ?_⟩
      rw [(settled succeeded).2]
      exact List.mem_cons_self
    apply Leads.after (below.trans ended)
    apply leads_andThen
    · exact fun running => (outcome.stack running).trans idle
    · intro running _
      refine ⟨leads_decodePending running rfl ?_, decodePending_stack _ _⟩
      rintro rfl
      rfl
  | wrote final ready =>
    have wrote : Path late s.doHandshake (s.doHandshake.subreqWrite final) :=
      path_subreqWrite alive fun last => ⟨negotiating, ready last⟩
    have same : push (andThen (s.doHandshake.subreqWrite final, []) (.negotiated 0) (decodePending · 0)) =
        s.doHandshake.subreqWrite final := by
      unfold andThen
      split
      · rfl
      · rfl
    rw [same]
    exact wrote.leads
  | waits =>
    have same : push (andThen (s.doHandshake, []) (.negotiated 0) (decodePending · 0)) = s.doHandshake := by
      unfold andThen
      split
      · rfl
      · rfl
    rw [same]
    exact (Path.refl _).leads

end Handshake

/-- `negotiate` on a stream that reads already. -/
theorem negotiate_reading (reading : s.flags.reading = true)
    (ready : (s.initFinished = false ∧ s.flags.connecting = true) ∨ s.oracle.renegotiate = true) :
    s.negotiate = ({ s with status := .negotiating }).doHandshake.handshaken := by
  have started : ({ s with status := .negotiating }).startReading = ([], { s with status := .negotiating }) := by
    unfold startReading
    rw [if_pos (.inl reading)]
  rw [negotiate, if_pos ready, started]

private theorem filterReadBytes_unfinished {length : ℕ} (unfinished : s.initFinished = false) :
    s.filterReadBytes length = andThen (s.setBuf length).negotiate.1 (.negotiated (s.setBuf length).negotiate.2)
      (decodePending · (s.setBuf length).negotiate.2) := by
  unfold filterReadBytes
  rw [unfinished]
  rfl

section Read

variable {length : ℕ} (alive : s.aborted = false) (shaped : Shaped s) (idle : s.stack = []) (filtered : s.ssl = true)
  (reading : s.flags.reading = true)

include shaped idle filtered reading in
/-- The filter is in use when something is read. -/
theorem Shaped.begun : s.status ≠ .initial := by
  intro initial
  rcases shaped.quiet filtered initial with ending | ⟨-, stopped, -⟩
  · exact not_ending idle ending
  · rw [reading] at stopped
    cases stopped

include alive shaped idle filtered reading in
private theorem leads_filterReadBytes (heard : s.flags.ignoreRead = false) (unfailed : s.status ≠ .error)
    (early : Early late s) : Leads late s (push (s.filterReadBytes length)) := by
  have begun := Shaped.begun shaped idle filtered reading
  cases finished : s.initFinished with
  | true =>
    rw [filterReadBytes_finished finished]
    by_cases negotiating : s.status = .negotiating
    · have appended : Path late s (s.setBuf length) := by
        refine .one alive (.append length begun (.inr ⟨idle, ?_⟩))
        rw [negotiating]
        nofun
      rw [decodePending, if_pos (.inr negotiating)]
      exact appended.leads
    · by_cases nothing : (s.setBuf length).bio + length = 0
      · have none : length = 0 := by omega
        cases none
        rw [decodePending, if_pos (.inl nothing)]
        exact (Path.refl s).leads
      · have begins : Path late s (s.on [.decode]) := .one alive (.decode idle negotiating)
        have appended : Path late (s.on [.decode]) ((s.setBuf length).on [.decode]) :=
          .one (s := s.on [.decode]) alive (.append length begun (.inl rfl))
        have decoded : Leads late ((s.setBuf length).on [.decode])
            ((s.setBuf length).decode.1.on ((s.setBuf length).decode.2 ++ [])) := leads_decode alive negotiating
        rw [decodePending, if_neg (fun skip => skip.elim nothing negotiating)]
        unfold push
        rw [decode_stack, show (s.setBuf length).stack = [] from idle]
        exact .after (begins.trans appended) decoded
  | false =>
    rw [filterReadBytes_unfinished finished]
    by_cases ready : (s.initFinished = false ∧ s.flags.connecting = true) ∨ s.oracle.renegotiate = true
    · have entered : Path late s { s with status := .negotiating } :=
        .one alive (.enter idle filtered reading heard unfailed finished)
      have appended : Path late { s with status := .negotiating } ({ s with status := .negotiating }.setBuf length) :=
        .one alive (.append length nofun (.inr ⟨idle, nofun⟩))
      have reshaped : Shaped ({ s with status := .negotiating }.setBuf length) :=
        (shaped.enter idle filtered unfailed finished).setBuf nofun (.inr idle)
      rw [negotiate_reading (s := s.setBuf length) reading ready]
      exact .after (entered.trans appended) (leads_handshaken alive reshaped idle rfl finished early)
    · have refused : (s.setBuf length).negotiate = (((s.setBuf length).abort, []), 0) := if_neg ready
      rw [refused]
      exact (Path.one alive .abort).leads_aborted ⟨rfl, rfl⟩ rfl

include alive shaped idle filtered reading in
private theorem leads_filterReadError (failed : err ≠ []) (unfailed : s.status ≠ .error) (early : Early late s) :
    Leads late s (push (s.filterReadError err)) := by
  unfold filterReadError
  split
  · exact (Path.refl s).leads
  · split
    · by_cases done : s.status = .terminal
      · rw [negotiationFinished, if_pos (.inl done)]
        exact (Path.refl s).leads
      · have negotiating : s.status = .negotiating := by
          have begun := Shaped.begun shaped idle filtered reading
          cases status : s.status with
          | initial => exact absurd status begun
          | negotiating => rfl
          | error => exact absurd status unfailed
          | terminal => exact absurd status done
        exact (Path.one alive (.finished err negotiating (fun succeeded => absurd succeeded failed) early
          (finished_cases shaped.sourced ⟨done, unfailed⟩))).leads
    · exact (Path.one alive (.event err)).leads

include alive shaped idle filtered reading in
/-- `SslFilter::handle_read` -/
theorem leads_filterHandleRead (heard : s.flags.ignoreRead = false) (early : Early late s) :
    Leads late s (push (s.filterHandleRead length err)) := by
  unfold filterHandleRead
  split
  · exact (Path.one alive (.event err)).leads
  · rename_i unfailed
    split
    · split
      · rename_i failed
        exact leads_filterReadError alive shaped idle filtered reading failed unfailed early
      · exact leads_filterReadBytes alive shaped idle filtered reading heard unfailed early
    · exact (Path.one alive .abort).leads

end Read

end UniEvent.Ssl.State
