import UniEvent.Proofs.Ssl

/-! # How an attempt ends

What `negotiation_finished` and the calls above it do to each field of the state: `Rest` are the fields that they leave
alone, `Concluded` is the filter afterwards, and `Passed` the whole when the outcome goes up with the request of the
attempt.
-/

namespace UniEvent.Ssl

theorem nestSslError_eq_nil {err : ErrorCode} : nestSslError err = [] ↔ err = [] := by
  unfold nestSslError
  split
  · exact Iff.rfl
  · rename_i failed
    exact iff_of_false (List.cons_ne_nil _ _) fun none => failed (.inl none)

namespace State

variable {s t u : State} {err : ErrorCode} {attempt : Attempt}

/-- What an outcome does not touch. -/
structure Rest (s t : State) : Prop where
  ssl : t.ssl = s.ssl
  profile : t.profile = s.profile
  serverAlive : t.serverAlive = s.serverAlive
  initFinished : t.initFinished = s.initFinished
  bio : t.bio = s.bio
  nextId : t.nextId = s.nextId
  oracle : t.oracle = s.oracle
  stack : t.stack = s.stack
  drained : t.drained = s.drained
  dontRead : t.flags.dontRead = s.flags.dontRead
  ignoreRead : t.flags.ignoreRead = s.flags.ignoreRead

theorem Rest.trans (first : Rest s t) (second : Rest t u) : Rest s u where
  ssl := second.ssl.trans first.ssl
  profile := second.profile.trans first.profile
  serverAlive := second.serverAlive.trans first.serverAlive
  initFinished := second.initFinished.trans first.initFinished
  bio := second.bio.trans first.bio
  nextId := second.nextId.trans first.nextId
  oracle := second.oracle.trans first.oracle
  stack := second.stack.trans first.stack
  drained := second.drained.trans first.drained
  dontRead := second.dontRead.trans first.dontRead
  ignoreRead := second.ignoreRead.trans first.ignoreRead

/-- A stream that is connected is established. -/
def Joined (s : State) : Prop := s.connected = true → s.flags.established = true

/-- The event of a connection that succeeds. -/
def successes (ok : Bool) : List Event := if ok = true then [.connected] else []

/-- `Stream::set_connect_result` -/
structure Resulted (s : State) (ok : Bool) (t : State) : Prop extends Rest s t where
  aborted : t.aborted = s.aborted
  status : t.status = s.status
  source : t.source = s.source
  attempt : t.attempt = s.attempt
  writes : t.writes = s.writes
  trace : t.trace = successes ok ++ s.trace
  connected : t.connected = true → ok = true ∨ s.connected = true
  established : ok = false → t.flags.established = s.flags.established
  joined : s.Joined → t.Joined
  reading : t.flags.reading = true → s.flags.reading = true ∨ t.flags.dontRead = false

theorem startReading_same (s : State) :
    s.startReading.2 = s ∨ s.startReading.2 = s.setFlags { s.flags with reading := true } := by
  unfold startReading
  split
  · exact .inl rfl
  · split
    · exact .inl rfl
    · exact .inr rfl

theorem resulted (s : State) (ok : Bool) : Resulted s ok (s.setConnectResult ok).2 := by
  cases ok with
  | false =>
    constructor
    · constructor <;> rfl
    all_goals first
      | rfl
      | exact id
      | exact fun _ => rfl
      | exact fun connected => .inr connected
      | exact fun reading => .inl reading
  | true =>
    simp only [setConnectResult, if_true]
    split
    · rename_i wanted
      have awake : s.flags.dontRead = false := by simpa [wantread, setFlags, log] using wanted
      rcases startReading_same ((( s.setFlags { s.flags with connecting := false }).setFlags
        { (s.setFlags { s.flags with connecting := false }).flags with
          inConnected := true, outConnected := true, established := true }).log .connected) with same | same
      all_goals
        rw [same]
        constructor
        · constructor <;> rfl
        all_goals first
          | rfl
          | exact fun _ => .inl rfl
          | exact fun _ _ => rfl
          | exact fun _ => .inr awake
          | exact fun wrong => nomatch wrong
    · constructor
      · constructor <;> rfl
      all_goals first
        | rfl
        | exact fun _ => .inl rfl
        | exact fun _ _ => rfl
        | exact fun reading => .inl reading
        | exact fun wrong => nomatch wrong

/-- `negotiation_finished` before the outcome goes up -/
structure Concluded (s : State) (err : ErrorCode) (t : State) : Prop extends Rest s t where
  status : t.status = if err = [] then .terminal else .error
  source : t.source = none
  established : err ≠ [] → t.flags.established = s.flags.established
  connected : t.connected = true → err = [] ∨ s.connected = true
  joined : s.Joined → t.Joined
  reading : t.flags.reading = true → t.flags.dontRead = false

theorem concluded (s : State) (err : ErrorCode) : Concluded s err (s.conclude err) := by
  unfold conclude filterReadStop
  cases stopped : s.flags.dontRead with
  | false =>
    rw [if_pos (by simp [wantread, stopped])]
    constructor
    · constructor <;> rfl
    · rfl
    · rfl
    · exact fun _ => rfl
    · exact .inr
    · exact id
    · exact fun _ => stopped
  | true =>
    rw [if_neg (by simp [wantread, stopped])]
    constructor
    · constructor
      all_goals first | rfl | exact stopped.symm
    · rfl
    · rfl
    · exact fun _ => rfl
    · exact .inr
    · exact id
    · exact fun reading => nomatch reading

theorem conclude_kept (s : State) (err : ErrorCode) :
    (s.conclude err).writes = s.writes ∧ (s.conclude err).trace = s.trace ∧ (s.conclude err).aborted = s.aborted ∧
      (s.conclude err).attempt = s.attempt := by
  unfold conclude filterReadStop
  split
  · exact ⟨rfl, rfl, rfl, rfl⟩
  · exact ⟨rfl, rfl, rfl, rfl⟩

theorem Concluded.resulted {result : Bool} (concluded : Concluded s err t) (resulted : Resulted t result u)
    (same : result = true ↔ err = []) : Concluded s err u := by
  constructor
  · exact concluded.toRest.trans resulted.toRest
  · rw [resulted.status, concluded.status]
  · rw [resulted.source, concluded.source]
  · intro failed
    have lost : result = false := Bool.eq_false_iff.mpr fun won => failed (same.mp won)
    rw [resulted.established lost, concluded.established failed]
  · intro connected
    rcases resulted.connected connected with won | earlier
    · exact .inl (same.mp won)
    · exact concluded.connected earlier
  · exact resulted.joined ∘ concluded.joined
  · intro reading
    rcases resulted.reading reading with before | awake
    · rw [resulted.dontRead]
      exact concluded.reading before
    · exact awake

/-- The attempt has a handshake message with the backend. -/
def owns (s : State) (attempt : Attempt) : Bool := s.writes.any fun write => write.owner = attempt.id

/-- The outcome has gone up with the request of the attempt. -/
structure Passed (s : State) (err : ErrorCode) (attempt : Attempt) (call : State × List Frame) : Prop
    extends Concluded s err call.1 where
  aborted : call.1.aborted = s.aborted
  ended : call.1.attempt = none
  writes : call.1.writes =
    if attempt.kept = true then s.writes else s.writes.filter fun write => write.owner ≠ attempt.id
  trace : call.1.trace =
    .ended attempt.id (attempt.kept && s.owns attempt) :: (successes (err = []) ++ .up (some attempt.id) :: s.trace)
  frames : call.2 = [.user] ∨ call.2 = [.user, .reset false]
  ending : err ≠ [] → s.profile = .client → call.2 = [.user, .reset false]

/-- The request leaves the queue. -/
theorem finish_rest (s : State) (attempt : Attempt) : Rest s (s.finish attempt) := by
  unfold finish
  cases kept : attempt.kept with
  | false =>
    rw [if_neg Bool.false_ne_true]
    constructor <;> rfl
  | true =>
    rw [if_pos rfl]
    constructor <;> rfl

/-- The fields of the state after `finish`. -/
theorem finish_fields (s : State) (attempt : Attempt) :
    (s.finish attempt).flags = s.flags ∧ (s.finish attempt).status = s.status ∧
      (s.finish attempt).source = s.source ∧ (s.finish attempt).aborted = s.aborted ∧
      (s.finish attempt).attempt = none ∧
      (s.finish attempt).writes =
        (if attempt.kept = true then s.writes else s.writes.filter fun write => write.owner ≠ attempt.id) ∧
      (s.finish attempt).trace = .ended attempt.id (attempt.kept && s.owns attempt) :: s.trace := by
  unfold finish
  cases kept : attempt.kept with
  | false =>
    rw [if_neg Bool.false_ne_true]
    exact ⟨rfl, rfl, rfl, rfl, rfl, rfl, rfl⟩
  | true =>
    rw [if_pos rfl]
    exact ⟨rfl, rfl, rfl, rfl, rfl, rfl, rfl⟩

theorem Concluded.finish (concluded : Concluded s err t) (attempt : Attempt) : Concluded s err (t.finish attempt) := by
  obtain ⟨flags, status, source, -⟩ := finish_fields t attempt
  constructor
  · exact concluded.toRest.trans (finish_rest t attempt)
  · rw [status, concluded.status]
  · rw [source, concluded.source]
  · rw [flags]
    exact concluded.established
  · unfold State.connected
    rw [flags]
    exact concluded.connected
  · unfold Joined State.connected
    rw [flags]
    exact concluded.joined
  · rw [flags]
    exact concluded.reading

/-- The request of the attempt is the one that the stream expects. -/
theorem finalizeHandleConnect_own (current : s.attempt = some attempt) :
    ∃ frames, s.finalizeHandleConnect err (some attempt.id) =
        ((s.setConnectResult (err = [])).2.finish attempt, frames) ∧
      (frames = [.user] ∨ frames = [.user, .reset false]) ∧ (err ≠ [] → frames = [.user, .reset false]) := by
  unfold finalizeHandleConnect
  split
  · rename_i request held same found
    rw [current] at found
    cases same
    cases found
    rw [if_pos rfl]
    refine ⟨_, rfl, ?_, ?_⟩
    · unfold connectFrames
      split
      · exact .inl rfl
      · exact .inr rfl
    · intro failed
      rw [nestReadStart, if_neg (fun both => failed both.1), connectFrames, if_neg failed]
  · rename_i other
    exact absurd current (other attempt.id attempt rfl)

/-- The state of an attempt whose outcome is passed on. -/
theorem passed_finish (s : State) (err : ErrorCode) (attempt : Attempt) (frames : List Frame)
    (someFrames : frames = [.user] ∨ frames = [.user, .reset false])
    (ending : err ≠ [] → s.profile = .client → frames = [.user, .reset false]) :
    Passed s err attempt
      (((((s.conclude err).log (.up (some attempt.id))).setConnectResult (err = [])).2.finish attempt),
      frames) := by
  have logged : Concluded s err ((s.conclude err).log (.up (some attempt.id))) := by
    have before := concluded s err
    exact { before with }
  have kept := conclude_kept s err
  have result := resulted ((s.conclude err).log (.up (some attempt.id))) (err = [])
  obtain ⟨-, -, -, aborted, ended, writes, trace⟩ :=
    finish_fields (((s.conclude err).log (.up (some attempt.id))).setConnectResult (err = [])).2 attempt
  have same : (((s.conclude err).log (.up (some attempt.id))).setConnectResult (err = [])).2.writes = s.writes := by
    rw [result.writes]
    exact kept.1
  constructor
  · exact (logged.resulted result (by simp)).finish attempt
  · rw [aborted, result.aborted]
    exact kept.2.2.1
  · exact ended
  · rw [writes, same]
  · rw [trace, result.trace, owns, owns, same]
    change _ :: (successes _ ++ .up (some attempt.id) :: (s.conclude err).trace) = _
    rw [kept.2.1]
  · exact someFrames
  · exact ending

private theorem passed_client (client : s.profile = .client) (current : s.attempt = some attempt) :
    Passed s err attempt ((s.conclude err).passOutcome (nestSslError err) (some attempt.id)) := by
  have mine : (s.conclude err).profile = .client := (concluded s err).profile.trans client
  have own : (s.conclude err).attempt = some attempt := (conclude_kept s err).2.2.2.trans current
  obtain ⟨frames, equation, someFrames, ending⟩ :=
    @finalizeHandleConnect_own ((s.conclude err).log (.up (some attempt.id))) (nestSslError err) attempt own
  have nested : decide (nestSslError err = []) = decide (err = []) := by simp [nestSslError_eq_nil]
  rw [passOutcome, if_pos mine, passConnect, equation, nested]
  apply passed_finish s err attempt frames someFrames
  intro failed _
  apply ending
  rwa [ne_eq, nestSslError_eq_nil]

private theorem passed_server (server : s.profile ≠ .client) (alive : s.serverAlive = true)
    (current : s.attempt = some attempt) :
    Passed s err attempt ((s.conclude err).passOutcome (nestSslError err) (some attempt.id)) := by
  have other : (s.conclude err).profile ≠ .client := by rwa [(concluded s err).profile]
  have there : (s.conclude err).serverAlive = true := (concluded s err).serverAlive.trans alive
  have own : (s.conclude err).attempt = some attempt := (conclude_kept s err).2.2.2.trans current
  have nested : decide (nestSslError err = []) = decide (err = []) := by simp [nestSslError_eq_nil]
  have result := resulted ((s.conclude err).log (.up (some attempt.id))) (err = [])
  have waiting : (((s.conclude err).log (.up (some attempt.id))).setConnectResult (err = [])).2.attempt =
      some attempt := result.attempt.trans own
  rw [passOutcome, if_neg other, if_pos there, passConnection, finalizeHandleConnection, nested]
  simp only [waiting, if_true]
  apply passed_finish
  · exact .inl rfl
  · intro _ client
    exact absurd client server

/-- The outcome has gone up without a request, by the filter of the server. -/
structure Nulled (s : State) (err : ErrorCode) (t : State) : Prop extends Concluded s err t where
  aborted : t.aborted = s.aborted
  attempt : t.attempt = s.attempt
  writes : t.writes = s.writes
  trace : t.trace = successes (err = []) ++ .up none :: s.trace

private theorem nulled_server (server : s.profile ≠ .client) (alive : s.serverAlive = true) :
    ∃ t, (s.conclude err).passOutcome (nestSslError err) none = (t, [.user]) ∧ Nulled s err t := by
  have before := concluded s err
  have nested : decide (nestSslError err = []) = decide (err = []) := by simp [nestSslError_eq_nil]
  have logged : Concluded s err ((s.conclude err).log (.up none)) :=
    { before with }
  have kept := conclude_kept s err
  have result := resulted ((s.conclude err).log (.up none)) (err = [])
  refine ⟨(((s.conclude err).log (.up none)).setConnectResult (err = [])).2, ?_, ?_⟩
  · rw [passOutcome, if_neg (by rwa [before.profile]), if_pos (before.serverAlive.trans alive), passConnection,
      finalizeHandleConnection, nested]
  · constructor
    · exact logged.resulted result (by simp)
    · exact result.aborted.trans kept.2.2.1
    · exact result.attempt.trans kept.2.2.2
    · exact result.writes.trans kept.1
    · rw [result.trace]
      change successes _ ++ .up none :: (s.conclude err).trace = _
      rw [kept.2.1]

/-- What `negotiation_finished` can do to a handshake that is not over. -/
inductive Finished (s : State) (err : ErrorCode) : State × List Frame → Prop where
  /-- A renegotiation ends. -/
  | again (connected : s.connected = true) : Finished s err ({ s with status := .terminal }, [])
  | passed {attempt : Attempt} {call : State × List Frame} (apart : s.connected = false)
    (current : s.attempt = some attempt) (own : s.source = some attempt.id)
    (passed : Passed s err attempt call) : Finished s err call
  /-- The server's stream is gone. -/
  | dead (apart : s.connected = false) (server : s.profile ≠ .client) : Finished s err (s.conclude err, [])
  | aborted {call : State × List Frame} (lost : s.source = none) (aborted : call.1.aborted = true)
    (trace : call.1.trace = .up none :: s.trace) : Finished s err call
  | nulled {t : State} (apart : s.connected = false) (lost : s.source = none) (nulled : Nulled s err t) :
    Finished s err (t, [.user])

/-- The attempt at the front is the one that the filter works for. -/
def Sourced (s : State) : Prop :=
  ∀ id, s.source = some id → s.connected = false ∧ ∃ attempt, s.attempt = some attempt ∧ attempt.id = id ∧
    attempt.tcp = false ∧ (s.profile ≠ .client → attempt.kept = false)

theorem finished_cases (sourced : Sourced s) (unended : s.status ≠ .terminal ∧ s.status ≠ .error) :
    Finished s err (s.negotiationFinished err) := by
  unfold negotiationFinished
  rw [if_neg (fun ended => ended.elim unended.1 unended.2)]
  split
  · rename_i connected
    exact .again connected
  · rename_i disconnected
    have apart : s.connected = false := Bool.eq_false_iff.mpr disconnected
    cases found : s.source with
    | some id =>
      obtain ⟨-, attempt, current, same, -⟩ := sourced id found
      cases same
      by_cases client : s.profile = .client
      · exact .passed apart current found (passed_client client current)
      · cases alive : s.serverAlive with
        | true => exact .passed apart current found (passed_server client alive current)
        | false =>
          have before := concluded s err
          rw [passOutcome, if_neg (by rwa [before.profile]), if_neg (by rw [before.serverAlive, alive]; decide)]
          exact .dead apart client
    | none =>
      by_cases client : s.profile = .client
      · rw [passOutcome, if_pos ((concluded s err).profile.trans client)]
        exact .aborted found rfl (congrArg _ (conclude_kept s err).2.1)
      · cases alive : s.serverAlive with
        | true =>
          obtain ⟨t, equation, nulled⟩ := @nulled_server s err client alive
          rw [equation]
          exact .nulled apart found nulled
        | false =>
          have before := concluded s err
          rw [passOutcome, if_neg (by rwa [before.profile]), if_neg (by rw [before.serverAlive, alive]; decide)]
          exact .dead apart client

/-! ### Attempts that end before or without a handshake -/

/-- The backend failed to connect, or the request was canceled: the filter starts again. -/
structure Refused (s : State) (attempt : Attempt) (call : State × List Frame) : Prop where
  ssl : call.1.ssl = s.ssl
  profile : call.1.profile = s.profile
  serverAlive : call.1.serverAlive = s.serverAlive
  nextId : call.1.nextId = s.nextId
  oracle : call.1.oracle = s.oracle
  stack : call.1.stack = s.stack
  aborted : call.1.aborted = s.aborted
  status : call.1.status = .initial
  renewed : (s.status = .initial ∧ call.1.source = s.source ∧ call.1.initFinished = s.initFinished ∧
      call.1.bio = s.bio ∧ call.1.drained = s.drained) ∨
    (call.1.source = none ∧ call.1.initFinished = false ∧ call.1.bio = 0 ∧ call.1.drained = true)
  flags : call.1.flags = { s.flags with connecting := false }
  ended : call.1.attempt = none
  writes : call.1.writes =
    if attempt.kept = true then s.writes else s.writes.filter fun write => write.owner ≠ attempt.id
  trace : call.1.trace =
    .ended attempt.id (attempt.kept && s.owns attempt) :: .up (some attempt.id) :: s.trace
  frames : call.2 = [.user, .reset false]

theorem refused (s : State) (attempt : Attempt) (failed : err ≠ []) :
    Refused s attempt ((s.answered err attempt).filterHandleConnect err attempt.id) := by
  have kept : (s.answered err attempt).flags = s.flags := by
    unfold answered
    rw [if_neg failed]
  rw [filterHandleConnect, if_pos failed, passConnect]
  have current : ((s.answered err attempt).filterReset.log (.up (some attempt.id))).attempt =
      some { attempt with tcp := false } := by
    unfold filterReset
    split
    · rfl
    · rfl
  obtain ⟨frames, equation, -, ending⟩ :=
    @finalizeHandleConnect_own _ err { attempt with tcp := false } current
  have lost : decide (err = []) = false := decide_eq_false failed
  rw [equation, ending failed, lost]
  by_cases initial : s.status = .initial
  · have same : (s.answered err attempt).filterReset = s.answered err attempt := if_pos initial
    rw [same]
    have rest := finish_rest (((s.answered err attempt).log (.up (some attempt.id))).setConnectResult false).2
      { attempt with tcp := false }
    obtain ⟨flags, status, source, aborted, ended, writes, trace⟩ :=
      finish_fields (((s.answered err attempt).log (.up (some attempt.id))).setConnectResult false).2
        { attempt with tcp := false }
    exact ⟨rest.ssl, rest.profile, rest.serverAlive, rest.nextId, rest.oracle, rest.stack, aborted,
      status.trans initial, .inl ⟨initial, source, rest.initFinished, rest.bio, rest.drained⟩,
      flags.trans (congrArg (fun flags : Flags => { flags with connecting := false }) kept), ended, writes, trace, rfl⟩
  · have renewed : (s.answered err attempt).filterReset = (s.answered err attempt).renew := if_neg initial
    rw [renewed]
    have rest := finish_rest (((s.answered err attempt).renew.log (.up (some attempt.id))).setConnectResult false).2
      { attempt with tcp := false }
    obtain ⟨flags, status, source, aborted, ended, writes, trace⟩ :=
      finish_fields (((s.answered err attempt).renew.log (.up (some attempt.id))).setConnectResult false).2
        { attempt with tcp := false }
    exact ⟨rest.ssl, rest.profile, rest.serverAlive, rest.nextId, rest.oracle, rest.stack, aborted, status,
      .inr ⟨source, rest.initFinished, rest.bio, rest.drained⟩,
      flags.trans (congrArg (fun flags : Flags => { flags with connecting := false }) kept), ended, writes, trace, rfl⟩

/-- The end of a connect on a stream without a filter. -/
structure Plain (s : State) (err : ErrorCode) (attempt : Attempt) (call : State × List Frame) : Prop
    extends Rest s call.1 where
  aborted : call.1.aborted = s.aborted
  status : call.1.status = s.status
  source : call.1.source = s.source
  ended : call.1.attempt = none
  writes : call.1.writes =
    if attempt.kept = true then s.writes else s.writes.filter fun write => write.owner ≠ attempt.id
  trace : call.1.trace =
    .ended attempt.id (attempt.kept && s.owns attempt) :: (successes (err = []) ++ s.trace)
  joined : s.Joined → call.1.Joined
  reading : call.1.flags.reading = true → s.flags.reading = true ∨ call.1.flags.dontRead = false
  frames : call.2 = [.user] ∨ call.2 = [.user, .reset false]

theorem plain (s : State) (err : ErrorCode) (attempt : Attempt) :
    Plain s err attempt ((s.answered err attempt).finalizeHandleConnect err (some attempt.id)) := by
  obtain ⟨frames, equation, someFrames, -⟩ :=
    @finalizeHandleConnect_own (s.answered err attempt) err { attempt with tcp := false } rfl
  have result := resulted (s.answered err attempt) (err = [])
  have rest := finish_rest ((s.answered err attempt).setConnectResult (err = [])).2 { attempt with tcp := false }
  obtain ⟨flags, status, source, aborted, ended, writes, trace⟩ :=
    finish_fields ((s.answered err attempt).setConnectResult (err = [])).2 { attempt with tcp := false }
  have answered : Rest s (s.answered err attempt) := by
    constructor <;> rfl
  rw [equation]
  constructor
  · exact answered.trans (result.toRest.trans rest)
  · exact aborted.trans result.aborted
  · exact status.trans result.status
  · exact source.trans result.source
  · exact ended
  · rw [writes, result.writes]
    rfl
  · rw [trace, result.trace, owns, owns, result.writes]
    rfl
  · intro joined
    unfold Joined connected
    rw [flags]
    apply result.joined
    intro still
    change (if err = [] then true else s.flags.established) = true
    split
    · rfl
    · exact joined still
  · rw [flags]
    exact result.reading
  · exact someFrames

end State

end UniEvent.Ssl
