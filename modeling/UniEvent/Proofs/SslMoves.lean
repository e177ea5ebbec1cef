import UniEvent.Proofs.SslPaths

/-! # Every move is a path

A move begins with its own effect, an `Entry`, and the rest of it is a path of steps. What the entries and the steps
keep holds along every run.
-/

namespace UniEvent.Ssl

/-- The backend reports something that it read. -/
def Move.reads : Move → Bool
  | .input (.read _) | .input (.readError _) | .input .eof => true
  | _ => false

namespace State

variable {late : Attempt → Prop} {s t u b : State} {err : ErrorCode} {move : Move} {attempt : Attempt}

/-- A request that leaves the queue in this move with a handshake message outstanding. -/
def Late (s : State) (move : Move) (attempt : Attempt) : Prop :=
  ∃ before, s.attempt = some before ∧ attempt.id = before.id ∧ attempt.kept = before.kept ∧ s.owns before = true ∧
    (before.tcp = true ∨ move.reads = true)

/-- Where a new handshake comes from: a connect that the backend has answered, or an accept. -/
def Origin (s : State) (move : Move) (b : State) (attempt : Attempt) : Prop :=
  (move = .input (.connected []) ∧ s.ssl = true ∧ b.trace = s.trace ∧ b.nextId = s.nextId ∧
    ∃ before, s.attempt = some before ∧ before.tcp = true ∧ attempt = { before with tcp := false }) ∨
  (move = .input (.accept true) ∧ s.attempt = none ∧ s.writes = [] ∧ b.trace = .attempt s.nextId :: s.trace ∧
    b.nextId = s.nextId + 1 ∧ attempt = { id := s.nextId, server := true, tcp := false, kept := false })

/-- `start_ssl_connection` is about to negotiate. -/
structure Prepared (s : State) (move : Move) (b : State) (attempt : Attempt) : Prop where
  idle : b.stack = []
  aborted : b.aborted = s.aborted
  filtered : b.ssl = true
  initial : b.status = .initial
  unfinished : b.initFinished = false
  empty : b.bio = 0
  drained : b.drained = true
  source : b.source = some attempt.id
  current : b.attempt = some attempt
  answered : attempt.tcp = false
  dropped : b.profile ≠ .client → attempt.kept = false
  writes : b.writes = s.writes
  apart : b.connected = false
  established : b.flags.established = true
  heard : b.flags.ignoreRead = s.flags.ignoreRead
  oracle : b.oracle = s.oracle
  origin : Origin s move b attempt

/-- What a move does first. -/
inductive Entry (s : State) : Move → State → Prop where
  | readStart : Entry s (.op .readStart) s.readStart
  | readStop : Entry s (.op .readStop) s.readStop
  | readIgnore : Entry s (.op .readIgnore) s.readIgnore
  | reset (clear : Bool) : Entry s (.op (.reset clear)) s
  | connect (kept : Bool) (idle : s.attempt = none) (unlocked : ¬ s.Ending) :
    Entry s (.op (.connect kept)) (s.connect kept)
  | dropServer : Entry s (.op .dropServer) { s with serverAlive := false }
  | refused (on : Bool) : Entry s (.op (.useSsl on)) s
  | useSsl (on : Bool) (disconnected : s.flags.connecting = false ∧ s.flags.established = false)
    (unwritten : s.writes = []) (unread : s.flags.reading = false) : Entry s (.op (.useSsl on)) (s.newFilter on)
  | ret {rest : List Frame} (top : s.stack = .user :: rest) : Entry s .ret (s.on rest)
  | input (input : Input) (idle : s.stack = []) : Entry s (.input input) s
  /-- The last message of a handshake is written. -/
  | shaken {write : Write} (idle : s.stack = []) (outstanding : write ∈ s.writes) (final : write.final = true)
    (negotiating : s.status = .negotiating) (finished : s.initFinished = true) :
    Entry s (.input (.written write [])) (s.on [.finalWritten])
  /-- A handshake starts. -/
  | started {move : Move} {b : State} {attempt : Attempt} (idle : s.stack = []) (prepared : Prepared s move b attempt) :
    Entry s move { b with status := .negotiating, flags := { b.flags with reading := true } }
  /-- A handshake does not start, since the backend does not read. -/
  | unread {move : Move} {b : State} {attempt : Attempt} {call : State × List Frame} {err : ErrorCode}
    (idle : s.stack = []) (prepared : Prepared s move b attempt) (failed : err ≠ [])
    (outcome : Finished { b with status := .negotiating } err call) : Entry s move (push call)
  | misused {move : Move} {b : State} {attempt : Attempt} (prepared : Prepared s move b attempt) : Entry s move b.abort
  /-- A stream without a filter is accepted. -/
  | accepted (idle : s.stack = []) (initial : s.status = .initial) (unused : s.attempt = none)
    (unwritten : s.writes = []) (disconnected : s.flags.connecting = false ∧ s.flags.established = false) :
    Entry s (.input (.accept false)) (push (s.accept false))

/-! ### A handshake starts -/

theorem Prepared.shaped (prepared : Prepared s move b attempt) (shaped : Shaped s) (idle : s.stack = [])
    (flags : Flags) (apart : flags.inConnected = false ∧ flags.outConnected = false) :
    Shaped { b with status := .negotiating, flags := flags } := by
  have unread (frame : Frame) : frame ∉ b.stack := by
    rw [prepared.idle]
    exact List.not_mem_nil
  have down : State.connected { b with status := .negotiating, flags := flags } = false := by
    simp [connected, apart.1, apart.2]
  constructor
  · change (b.writes.map Write.owner).Nodup
    rw [prepared.writes]
    exact shaped.owners
  · rintro ⟨⟩
  · intro id found
    change b.source = some id at found
    rw [prepared.source] at found
    cases found
    exact ⟨down, attempt, prepared.current, rfl, prepared.answered, prepared.dropped⟩
  · intro write member final live
    change write ∈ b.writes at member
    rw [prepared.writes] at member
    rcases prepared.origin with ⟨-, -, -, -, before, current, waiting, -⟩ | ⟨-, -, unwritten, -⟩
    · rcases shaped.finals write member final live with ending | ⟨other, found, -, answered, -⟩
      · exact absurd ending (not_ending idle)
      · rw [current] at found
        cases found
        rw [waiting] at answered
        cases answered
    · rw [unwritten] at member
      cases member
  · exact fun member => absurd member (unread _)
  · exact fun member => absurd member (unread _)
  · change (b.stack.filter Frame.work).length ≤ 1
    rw [prepared.idle]
    exact Nat.zero_le 1
  · intro plain
    change b.ssl = false at plain
    rw [prepared.filtered] at plain
    cases plain
  · rintro - ⟨⟩
  · rintro ⟨clear, member⟩
    exact absurd member (unread _)
  · intro connected
    rw [down] at connected
    cases connected

theorem Prepared.disconnected (prepared : Prepared s move b attempt) :
    b.flags.inConnected = false ∧ b.flags.outConnected = false := by
  have down := prepared.apart
  unfold connected at down
  rwa [Bool.or_eq_false_iff] at down

theorem Prepared.early (prepared : Prepared s move b attempt) (flags : Flags) :
    Early (Late s move) { b with status := .negotiating, flags := flags } := by
  intro other found owned
  change b.attempt = some other at found
  change b.owns other = true at owned
  rw [prepared.current] at found
  cases found
  unfold owns at owned
  rw [prepared.writes] at owned
  rcases prepared.origin with ⟨-, -, -, -, before, current, waiting, rfl⟩ | ⟨-, -, unwritten, -⟩
  · exact ⟨before, current, rfl, rfl, owned, .inl waiting⟩
  · rw [unwritten] at owned
    cases owned

/-- `Stream::_read_start` on a stream that is established. -/
theorem startReading_established (established : s.flags.established = true) :
    s.startReading = ([], s.setFlags { s.flags with reading := true }) ∨ ∃ err, err ≠ [] ∧
      s.startReading = (err, s) := by
  unfold startReading
  cases reading : s.flags.reading with
  | true =>
    left
    have same : s.setFlags { s.flags with reading := true } = s := by
      unfold setFlags
      rw [← reading]
    rw [if_pos (.inl rfl), same]
  | false =>
    rw [if_neg (by simp [established])]
    split
    · rename_i failed
      exact .inr ⟨_, failed, rfl⟩
    · exact .inl rfl

/-- `start_ssl_connection` -/
theorem Prepared.leads (prepared : Prepared s move b attempt) (alive : s.aborted = false) (shaped : Shaped s)
    (idle : s.stack = []) : ∃ u, Entry s move u ∧ Leads (Late s move) u (push b.negotiate.1) := by
  have apart := prepared.disconnected
  unfold negotiate
  split
  · rcases startReading_established (s := { b with status := .negotiating }) prepared.established with
      started | ⟨err, failed, started⟩
    · rw [started]
      refine ⟨_, .started idle prepared, Path.leads ?_⟩
      exact path_handshaken (prepared.aborted.trans alive) (prepared.shaped shaped idle _ apart) prepared.idle rfl
        prepared.unfinished (prepared.early _) prepared.empty
    · have reshaped := prepared.shaped shaped idle b.flags apart
      have outcome : Finished { b with status := .negotiating } err _ := finished_cases reshaped.sourced ⟨nofun, nofun⟩
      rw [started]
      cases err with
      | nil => exact absurd rfl failed
      | cons => exact ⟨_, .unread idle prepared failed outcome, (Path.refl _).leads⟩
  · exact ⟨_, .misused prepared, (Path.refl _).leads⟩

/-! ### Events of the loop -/

private theorem path_handleEof (alive : s.aborted = false) (shaped : Shaped s) (early : Early late s) :
    Path late s (push s.handleEof) := by
  unfold handleEof
  split
  · exact .refl s
  · have cleared : Path late s s.clearInConnected := .one alive .clearIn
    apply cleared.trans
    split
    · unfold filterHandleEof
      split
      · exact .one alive .eof
      · rename_i negotiating
        have unended : s.status ≠ .terminal ∧ s.status ≠ .error := by
          rw [show s.status = .negotiating from negotiating]
          exact ⟨nofun, nofun⟩
        exact .one alive (.finished _ negotiating (by rintro ⟨⟩) early
          (finished_cases shaped.clearInConnected.sourced unended))
      · exact .refl _
    · exact .one alive .eof

private theorem leads_handleRead {length : ℕ} (alive : s.aborted = false) (shaped : Shaped s) (idle : s.stack = [])
    (reading : s.flags.reading = true) (other : err ≠ [.connectionReset]) (early : Early late s) :
    Leads late s (push (s.handleRead length err)) := by
  rw [handleRead, if_neg other]
  split
  · exact (Path.refl s).leads
  · rename_i heard
    split
    · rename_i filtered
      exact leads_filterHandleRead alive shaped idle filtered reading (Bool.eq_false_iff.mpr heard) early
    · exact (Path.one alive (.event err)).leads

private theorem subreqDone_aborted (s : State) (err : ErrorCode) (write : Write) :
    (s.subreqDone err write).aborted = s.aborted := by
  unfold subreqDone
  split
  · rfl
  · rfl

private theorem leads_finalWritten_failed (alive : s.aborted = false) (failed : s.status = .error) :
    Path late s (push s.finalWritten) := by
  unfold finalWritten
  split
  · rw [filterHandleRead, if_pos failed]
    exact .one alive (.event [])
  · exact .refl s

/-- The last message is written. -/
theorem leads_handleWrite_final {write : Write} (alive : s.aborted = false) (shaped : Shaped s) (idle : s.stack = [])
    (outstanding : write ∈ s.writes) (final : write.final = true) (live : write.live = true) :
    ∃ u, Entry s (.input (.written write [])) u ∧ Leads late u (push (s.handleWrite [] write)) := by
  obtain ⟨rest, status, source, -⟩ := subreqDone_rest s [] write
  have running : (s.subreqDone [] write).aborted = false := (subreqDone_aborted s [] write).trans alive
  rw [handleWrite, if_neg (by simp), if_pos final]
  rcases shaped.finals write outstanding final live with ending | ⟨-, -, -, -, failed | ⟨negotiating, finished, own⟩⟩
  · exact absurd ending (not_ending idle)
  · -- the handshake has failed before
    refine ⟨s, .input _ idle, ?_⟩
    have written : Path late s (s.subreqDone [] write) := .one alive (.written write)
    have skipped : (s.subreqDone [] write).negotiationFinished [] = (s.subreqDone [] write, []) :=
      if_pos (.inr (status.trans failed))
    rw [skipped, andThen, if_neg (Bool.eq_false_iff.mp running), if_pos rfl]
    exact (written.trans (leads_finalWritten_failed running (status.trans failed))).leads
  · refine ⟨_, .shaken idle outstanding final negotiating finished, ?_⟩
    have unended : (s.subreqDone [] write).status ≠ .terminal ∧ (s.subreqDone [] write).status ≠ .error := by
      rw [status, negotiating]
      exact ⟨nofun, nofun⟩
    have outcome : Finished (s.subreqDone [] write) [] _ := finished_cases (shaped.subreqDone [] write).sourced unended
    generalize (s.subreqDone [] write).negotiationFinished [] = call at outcome
    have below : Finished ((s.on [.finalWritten]).subreqDone [] write) [] (call.1.on [.finalWritten], call.2) :=
      outcome.on [.finalWritten]
    have atom : Atom late (s.on [.finalWritten]) (call.1.on (call.2 ++ [.finalWritten])) :=
      Atom.shaken (s := s.on [.finalWritten]) outstanding negotiating finished own rfl below
    have reshaped := atom.shaped (shaped.start idle rfl (by rintro ⟨⟩) fun _ => finished)
    apply Leads.after (.one (s := s.on [.finalWritten]) alive atom)
    apply leads_andThen
    · exact fun running => (outcome.stack running).trans (rest.stack.trans idle)
    · intro running quiet
      rw [quiet] at reshaped
      apply leads_finalWritten running
      exact reshaped.resolve_left (Bool.eq_false_iff.mp running)

/-- `SslFilter::handle_write` of a message that failed, or of one that is not the last. -/
theorem path_handleWrite {write : Write} (alive : s.aborted = false) (filtered : s.ssl = true) (free : ¬ s.Ending)
    (outstanding : write ∈ s.writes) (other : err = [] → write.final = false) :
    Path late s (push (s.handleWrite err write)) := by
  unfold handleWrite
  split
  · rename_i failed
    exact .one alive (.failed filtered outstanding failed free)
  · rename_i succeeded
    rw [not_not] at succeeded
    cases succeeded
    rw [if_neg (Bool.eq_false_iff.mp (other rfl))]
    exact .one alive (.written write)

/-! ### Requests that are canceled -/

/-- The frames of a call that ends an attempt. -/
def Callback (call : State × List Frame) : Prop :=
  call.1.aborted = true ∨ call.2 = [] ∨ call.2 = [.user] ∨ call.2 = [.user, .reset false]

private theorem negotiationFinished_callback (shaped : Shaped s) : Callback (s.negotiationFinished err) := by
  by_cases ended : s.status = .terminal ∨ s.status = .error
  · rw [negotiationFinished, if_pos ended]
    exact .inr (.inl rfl)
  · rw [not_or] at ended
    have outcome : Finished s err _ := finished_cases shaped.sourced ended
    generalize s.negotiationFinished err = call at outcome
    cases outcome with
    | again => exact .inr (.inl rfl)
    | passed _ _ _ passed => exact .inr (.inr passed.frames)
    | dead => exact .inr (.inl rfl)
    | aborted _ aborted _ => exact .inl aborted
    | nulled => exact .inr (.inr (.inl rfl))

/-- `Request::cancel` of a connect request. -/
theorem path_cancel (alive : s.aborted = false) (shaped : Shaped s) (current : s.attempt = some attempt)
    (client : attempt.server = false) (failed : err ≠ []) :
    Path late s (push (s.cancel err attempt)) ∧ Callback (s.cancel err attempt) := by
  have free : ¬ s.Ending := by
    intro ending
    rw [shaped.locked ending] at current
    cases current
  rw [cancel, if_neg (Bool.eq_false_iff.mp client)]
  split
  · rename_i filtered
    split
    · rename_i write found
      have outstanding : write ∈ s.writes := List.mem_of_find?_eq_some found
      rw [handleWrite, if_pos failed]
      exact ⟨.one alive (.failed filtered outstanding failed free),
        negotiationFinished_callback (shaped.subreqDone err write)⟩
    · rename_i none
      have unwritten : s.owns attempt = false := by
        rw [owns, List.any_eq_false]
        intro write member
        exact List.find?_eq_none.mp none write member
      rw [handleConnect, if_pos filtered]
      exact ⟨.one alive (.refused filtered current failed (.inr unwritten)),
        .inr (.inr (.inr (refused s attempt failed).frames))⟩
  · rename_i unfiltered
    have unfiltered : s.ssl = false := Bool.eq_false_iff.mpr unfiltered
    rw [handleConnect, if_neg (Bool.eq_false_iff.mp unfiltered)]
    exact ⟨.one alive (.plain err unfiltered current), .inr (.inr (plain s err attempt).frames)⟩

/-- `queue.cancel` -/
theorem leads_afterCancel {call : State × List Frame} (clear : Bool) (path : Path late s (push call))
    (callback : Callback call) : Leads late s (afterCancel clear call) := by
  unfold afterCancel
  split
  · rename_i aborted
    exact path.leads_aborted ⟨aborted, aborted⟩ rfl
  · rename_i running
    have running : call.1.aborted = false := Bool.eq_false_iff.mpr running
    split
    · exact (path.trans (.one running .abort)).leads_aborted ⟨rfl, rfl⟩ rfl
    · rename_i left
      rw [not_not] at left
      split
      · rename_i quiet
        have same : push call = call.1 := by
          unfold push
          rw [quiet]
          rfl
        rw [same] at path
        exact (path.trans (.one running (.resetNow clear left))).leads
      · rename_i calls
        have top :
            (push call).stack = .user :: call.1.stack ∨ (push call).stack = .user :: .reset false :: call.1.stack := by
          unfold push
          rcases callback with aborted | quiet | frames | frames
          · rw [running] at aborted
            cases aborted
          · exact absurd quiet calls
          · rw [frames]
            exact .inl rfl
          · rw [frames]
            exact .inr rfl
        exact (path.trans (.one running (.retarget clear left top))).leads

private theorem leads_userReset (alive : s.aborted = false) (shaped : Shaped s) (clear : Bool) :
    Leads late s (s.userReset clear) := by
  unfold userReset
  split
  · rename_i idle
    exact (Path.one alive (.resetNow clear idle)).leads
  · rename_i attempt current
    cases server : attempt.server with
    | true =>
      obtain ⟨-, -, -, aborted, ended, -⟩ := finish_fields s attempt
      rw [cancel, if_pos server, afterCancel, if_neg (Bool.eq_false_iff.mp (aborted.trans alive)),
        if_neg (by simp [ended]), if_pos rfl]
      exact (Path.one alive (.dropAccept clear current server)).leads
    | false =>
      obtain ⟨path, callback⟩ := path_cancel alive shaped current server (List.cons_ne_nil Code.canceled [])
      exact leads_afterCancel clear path callback

/-! ### Every move -/

/-- The backend has connected. -/
theorem prepared_connect (shaped : Shaped s) (idle : s.stack = []) (filtered : s.ssl = true)
    (current : s.attempt = some attempt) (waiting : attempt.tcp = true) (apart : s.connected = false) :
    Prepared s (.input (.connected [])) { (s.answered [] attempt).filterReset with
      source := some attempt.id, profile := .client } { attempt with tcp := false } := by
  have same : (s.answered [] attempt).filterReset.flags = { s.flags with established := true } ∧
      (s.answered [] attempt).filterReset.stack = s.stack ∧ (s.answered [] attempt).filterReset.aborted = s.aborted ∧
      (s.answered [] attempt).filterReset.ssl = s.ssl ∧
      (s.answered [] attempt).filterReset.attempt = some { attempt with tcp := false } ∧
      (s.answered [] attempt).filterReset.writes = s.writes ∧ (s.answered [] attempt).filterReset.trace = s.trace ∧
      (s.answered [] attempt).filterReset.nextId = s.nextId ∧ (s.answered [] attempt).filterReset.oracle = s.oracle ∧
      (s.answered [] attempt).filterReset.status = .initial ∧
      (s.answered [] attempt).filterReset.initFinished = false ∧ (s.answered [] attempt).filterReset.bio = 0 ∧
      (s.answered [] attempt).filterReset.drained = true := by
    unfold filterReset
    split
    · rename_i initial
      exact ⟨rfl, rfl, rfl, rfl, rfl, rfl, rfl, rfl, rfl, initial, (shaped.unsourced initial).2⟩
    · exact ⟨rfl, rfl, rfl, rfl, rfl, rfl, rfl, rfl, rfl, rfl, rfl, rfl, rfl⟩
  obtain ⟨flags, stack, aborted, ssl, request, writes, trace, nextId, oracle, initial, unfinished, empty, drained⟩ :=
    same
  refine ⟨stack.trans idle, aborted, ssl.trans filtered, initial, unfinished, empty, drained, rfl, request, rfl,
    fun other => absurd rfl other, writes, ?_, ?_, ?_, oracle, ?_⟩
  · unfold connected at apart ⊢
    dsimp only
    rw [flags]
    exact apart
  · dsimp only
    rw [flags]
  · dsimp only
    rw [flags]
  · exact .inl ⟨rfl, filtered, trace, nextId, attempt, current, waiting, rfl⟩

/-- A connection is accepted. -/
theorem prepared_accept (shaped : Shaped s) (idle : s.stack = []) (unused : s.attempt = none)
    (unwritten : s.writes = []) (disconnected : s.flags.established = false) :
    Prepared s (.input (.accept true)) { ({ ((s.newFilter true).setFlags
        { s.flags with connecting := true, established := true }) with serverAlive := true }).begin true false with
      source := some s.nextId, profile := .server }
      { id := s.nextId, server := true, tcp := false, kept := false } := by
  have apart : s.connected = false := by
    cases connected : s.connected with
    | false => rfl
    | true =>
      rw [shaped.joined connected] at disconnected
      cases disconnected
  exact ⟨idle, rfl, rfl, rfl, rfl, rfl, rfl, rfl, rfl, rfl, fun _ => rfl, rfl, apart, rfl, rfl, rfl,
    .inr ⟨rfl, unused, unwritten, rfl, rfl, rfl⟩⟩

theorem early_reads (reads : move.reads = true) : Early (Late s move) s :=
  fun attempt current owned => ⟨attempt, current, rfl, rfl, owned, .inr reads⟩

theorem Handled.leads {input : Input} {call : State × List Frame} (handled : Handled s input call)
    (alive : s.aborted = false) (shaped : Shaped s) (idle : s.stack = []) :
    ∃ u, Entry s (.input input) u ∧ Leads (Late s (.input input)) u (push call) := by
  have same {input : Input} (leads : Leads (Late s (.input input)) s (push call)) :
      ∃ u, Entry s (.input input) u ∧ Leads (Late s (.input input)) u (push call) := ⟨s, .input input idle, leads⟩
  cases handled with
  | accept ssl initial free unwritten disconnected =>
    cases ssl with
    | false => exact ⟨_, .accepted idle initial free unwritten disconnected, (Path.refl _).leads⟩
    | true => exact (prepared_accept shaped idle free unwritten disconnected.2).leads alive shaped idle
  | @connected attempt err current waiting once =>
    by_cases succeeded : err = []
    · cases succeeded
      cases filtered : s.ssl with
      | true =>
        rw [handleConnect, if_pos filtered, filterHandleConnect, if_neg (by simp)]
        exact (prepared_connect shaped idle filtered current waiting (once rfl)).leads alive shaped idle
      | false =>
        apply same
        rw [handleConnect, if_neg (Bool.eq_false_iff.mp filtered)]
        exact (Path.one alive (.plain [] filtered current)).leads
    · apply same
      unfold handleConnect
      split
      · rename_i filtered
        exact (Path.one alive (.refused filtered current succeeded (.inl waiting))).leads
      · rename_i unfiltered
        exact (Path.one alive (.plain err (Bool.eq_false_iff.mpr unfiltered) current)).leads
  | read length reading =>
    apply same
    exact leads_handleRead alive shaped idle reading (by simp) (early_reads rfl)
  | connectionReset reading unseen =>
    apply same
    exact (Path.step alive .seen (path_handleEof alive shaped.seen (early_reads rfl))).leads
  | readError reading failed other =>
    apply same
    exact leads_handleRead alive shaped idle reading other (early_reads rfl)
  | eof reading unseen =>
    apply same
    exact (Path.step alive .seen (path_handleEof alive shaped.seen (early_reads rfl))).leads
  | @written write err outstanding live filtered =>
    by_cases last : err = [] ∧ write.final = true
    · obtain ⟨rfl, final⟩ := last
      exact leads_handleWrite_final alive shaped idle outstanding final (live.resolve_left (by simp))
    · apply same
      refine (path_handleWrite alive filtered (not_ending idle) outstanding ?_).leads
      intro succeeded
      exact Bool.eq_false_iff.mpr fun final => last ⟨succeeded, final⟩
  | destroyed outstanding plain =>
    apply same
    exact (Path.one alive .abort).leads
  | timeout current client =>
    apply same
    exact (path_cancel alive shaped current client (List.cons_ne_nil Code.timedOut [])).1.leads
  | outClosed out =>
    apply same
    exact (Path.one alive .clearOut).leads

theorem Called.leads {op : Op} (called : Called s op t) (alive : s.aborted = false) (shaped : Shaped s) :
    ∃ u, Entry s (.op op) u ∧ Leads late u t := by
  cases called with
  | readStart => exact ⟨_, .readStart, (Path.refl _).leads⟩
  | readStop => exact ⟨_, .readStop, (Path.refl _).leads⟩
  | readIgnore => exact ⟨_, .readIgnore, (Path.refl _).leads⟩
  | reset clear => exact ⟨_, .reset clear, leads_userReset alive shaped clear⟩
  | connect kept idle unlocked =>
    refine ⟨_, .connect kept idle ?_, (Path.refl _).leads⟩
    rintro ⟨clear, member⟩
    exact unlocked clear member
  | dropServer => exact ⟨_, .dropServer, (Path.refl _).leads⟩
  | refused on => exact ⟨_, .refused on, (Path.refl _).leads⟩
  | useSsl on disconnected unwritten unread =>
    exact ⟨_, .useSsl on disconnected unwritten unread, (Path.refl _).leads⟩

theorem Stepped.leads (stepped : Stepped s move t) (alive : s.aborted = false) (shaped : Shaped s) :
    ∃ u, Entry s move u ∧ Leads (Late s move) u t := by
  cases stepped with
  | op turn called => exact called.leads alive shaped
  | ret top => exact ⟨_, .ret top, leads_unwind _ _ alive (shaped.returned top)⟩
  | input idle handled => exact handled.leads alive shaped idle

/-! ### Every run -/

theorem Shaped.readStart (shaped : Shaped s) : Shaped s.readStart := by
  have heard : Shaped (s.setFlags { s.flags with dontRead := false, ignoreRead := false }) :=
    shaped.setFlags id id .inl shaped.joined
  unfold State.readStart startReading
  split
  · exact heard
  · rename_i closed
    split
    · exact heard
    · refine heard.setFlags id id (fun _ => .inr ?_) shaped.joined
      simpa using (not_or.mp closed).2

theorem Shaped.connect (shaped : Shaped s) (kept : Bool) (idle : s.attempt = none) (unlocked : ¬ s.Ending) :
    Shaped (s.connect kept) := by
  constructor
  · exact shaped.owners
  · exact shaped.unsourced
  · intro id found
    obtain ⟨-, attempt, current, -⟩ := shaped.sourced id found
    rw [idle] at current
    cases current
  · intro write member final live
    rcases shaped.finals write member final live with ending | ⟨attempt, current, -⟩
    · exact absurd ending unlocked
    · rw [idle] at current
      cases current
  · exact shaped.decoding
  · exact shaped.shaken
  · exact shaped.single
  · exact shaped.unfiltered
  · exact shaped.quiet
  · exact fun ending => absurd ending unlocked
  · exact shaped.joined

theorem Shaped.newFilter (shaped : Shaped s) (ssl : Bool) (unwritten : s.writes = [])
    (disconnected : s.flags.established = false) (unread : s.flags.reading = false) : Shaped (s.newFilter ssl) := by
  constructor
  · exact shaped.owners
  · exact fun _ => ⟨rfl, rfl, rfl, rfl⟩
  · exact nofun
  · intro write member
    change write ∈ s.writes at member
    rw [unwritten] at member
    cases member
  · exact fun _ => nofun
  · exact fun _ => .inl rfl
  · exact shaped.single
  · exact fun _ => rfl
  · refine fun _ _ => .inr ⟨disconnected, unread, ?_⟩
    rw [Bool.eq_false_iff]
    intro connected
    exact Bool.eq_false_iff.mp disconnected (shaped.joined connected)
  · exact shaped.locked
  · exact shaped.joined

/-- A stream without a filter is connected at once. -/
theorem accept_plain (s : State) : ∃ t, s.accept false = (t, [.user]) ∧
    Resulted ((s.newFilter false).setFlags { s.flags with connecting := true, established := true }) true t :=
  ⟨_, rfl, resulted _ true⟩

private theorem accept_shaped (idle : s.stack = []) (unused : s.attempt = none) (unwritten : s.writes = []) :
    Shaped (push (s.accept false)) := by
  obtain ⟨t, accepted, result⟩ := accept_plain s
  have stack : t.stack = [] := result.stack.trans idle
  have writes : t.writes = [] := result.writes.trans unwritten
  have initial : t.status = .initial := result.status
  have unsourced : t.source = none := result.source
  rw [accepted]
  constructor
  · change (t.writes.map Write.owner).Nodup
    rw [writes]
    exact List.nodup_nil
  · exact fun _ => ⟨unsourced, result.initFinished, result.bio, result.drained⟩
  · intro id found
    change t.source = some id at found
    rw [unsourced] at found
    cases found
  · intro write member
    change write ∈ t.writes at member
    rw [writes] at member
    cases member
  · intro _
    change t.status ≠ .negotiating
    rw [initial]
    nofun
  · exact fun _ => .inl result.bio
  · change ((.user :: t.stack).filter Frame.work).length ≤ 1
    rw [stack]
    exact Nat.zero_le 1
  · exact fun _ => initial
  · intro filtered
    change t.ssl = true at filtered
    rw [result.ssl] at filtered
    cases filtered
  · exact fun _ => result.attempt.trans unused
  · exact result.joined fun _ => rfl

theorem Entry.shaped (entry : Entry s move u) (shaped : Shaped s) : u.aborted = true ∨ Shaped u := by
  cases entry with
  | readStart => exact .inr shaped.readStart
  | readStop => exact .inr (shaped.setFlags id id (fun reading => nomatch reading) shaped.joined)
  | readIgnore => exact .inr (shaped.setFlags id id .inl shaped.joined)
  | reset clear => exact .inr shaped
  | connect kept idle unlocked => exact .inr (shaped.connect kept idle unlocked)
  | dropServer => exact .inr shaped.dropServer
  | refused on => exact .inr shaped
  | useSsl on disconnected unwritten unread => exact .inr (shaped.newFilter on unwritten disconnected.2 unread)
  | ret top => exact .inr (shaped.returned top)
  | input input idle => exact .inr shaped
  | shaken idle outstanding final negotiating finished =>
    exact .inr (shaped.start idle rfl (by rintro ⟨⟩) fun _ => finished)
  | started idle prepared => exact .inr (prepared.shaped shaped idle _ prepared.disconnected)
  | @unread move b attempt call err idle prepared failed outcome =>
    have reshaped := prepared.shaped shaped idle b.flags prepared.disconnected
    exact outcome.shaped reshaped (by rintro ⟨⟩) prepared.filtered fun succeeded => absurd succeeded failed
  | misused prepared => exact .inl rfl
  | accepted idle initial unused unwritten disconnected => exact .inr (accept_shaped idle unused unwritten)

theorem Shaped.ask (shaped : Shaped s) (oracle : Oracle) : Shaped (s.ask oracle) :=
  { shaped with }

/-- What a run keeps: `A` of the trace, and while the program runs the shape and `J` of the state. -/
def Kept (A : List Event → Prop) (J : State → Prop) (s : State) : Prop :=
  A s.trace ∧ (s.aborted = true ∨ Shaped s ∧ J s)

/-- What the entry and the steps of a move keep, the move keeps. -/
theorem Kept.step {A : List Event → Prop} {J : State → Prop} {oracle : Oracle} (kept : Kept A J s)
    (stepped : s.step (oracle, move) = some t) (asked : Shaped s → J s → J (s.ask oracle))
    (entry : ∀ u, Entry (s.ask oracle) move u → Shaped (s.ask oracle) → A s.trace → J (s.ask oracle) →
      A u.trace ∧ (u.aborted = true ∨ J u))
    (atom : ∀ t u, Atom (Late (s.ask oracle) move) t u → Shaped t → A t.trace → J t →
      A u.trace ∧ (u.aborted = true ∨ J u)) : Kept A J t := by
  obtain ⟨alive, effect⟩ := step_cases stepped
  obtain ⟨holds, aborted | ⟨shaped, invariant⟩⟩ := kept
  · rw [alive] at aborted
    cases aborted
  · obtain ⟨u, entered, leads⟩ := effect.leads alive (shaped.ask oracle)
    have first := entry u entered (shaped.ask oracle) holds (asked shaped invariant)
    have both {u : State} (one : u.aborted = true ∨ Shaped u) (other : u.aborted = true ∨ J u) :
        u.aborted = true ∨ Shaped u ∧ J u := by
      rcases one with aborted | shaped
      · exact .inl aborted
      · exact other.imp_right fun invariant => ⟨shaped, invariant⟩
    apply leads.keeps ⟨first.1, both (entered.shaped (shaped.ask oracle)) first.2⟩
    intro before after move holds invariant
    have next := atom before after move invariant.1 holds invariant.2
    exact ⟨next.1, both (move.shaped invariant.1) next.2⟩

end State

end UniEvent.Ssl
