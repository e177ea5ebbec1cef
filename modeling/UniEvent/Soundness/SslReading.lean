import UniEvent.Program.Machine
import UniEvent.Proofs.SslMoves

/-! # A handshake reads

`SslFilter::negotiate` starts to read whatever the user wants, and `negotiation_finished` stops again if the user does
not want to read. `Stream::read_stop` and `Stream::read_ignore` know nothing of this: called during a handshake, they
cut the filter off from the peer.
-/

namespace UniEvent.Ssl

namespace State

variable {late : Attempt → Prop} {s t u : State} {err : ErrorCode} {move : Move} {call : State × List Frame}

/-- What the backend reads goes to the filter while a handshake is under way, and what it reads afterwards is wanted. -/
structure Hearing (s : State) : Prop where
  handshake : s.status = .negotiating → s.flags.reading = true ∧ s.flags.ignoreRead = false
  wanted : s.flags.reading = true → s.flags.dontRead = true → s.status = .negotiating ∨ s.Ending
  renegotiation : s.status = .negotiating → s.connected = true → s.flags.dontRead = false

theorem Hearing.mono (hearing : Hearing s) (status : t.status = s.status) (reading : t.flags.reading = s.flags.reading)
    (ignoreRead : t.flags.ignoreRead = s.flags.ignoreRead) (dontRead : t.flags.dontRead = s.flags.dontRead)
    (connected : t.connected = true → s.connected = true) (ending : s.Ending → t.Ending) : Hearing t := by
  constructor
  · rw [status, reading, ignoreRead]
    exact hearing.handshake
  · rw [status, reading, dontRead]
    exact fun set unwanted => (hearing.wanted set unwanted).imp_right ending
  · rw [status, dontRead]
    exact fun negotiating joined => hearing.renegotiation negotiating (connected joined)

theorem Hearing.on {stack : List Frame} (hearing : Hearing s) (ending : s.Ending → (s.on stack).Ending) :
    Hearing (s.on stack) := hearing.mono rfl rfl rfl rfl id ending

/-- Nothing is read but what the user wants. -/
theorem hearing_of_idle (ended : s.status ≠ .negotiating) (wanted : s.flags.reading = true → s.flags.dontRead = false) :
    Hearing s := by
  constructor
  · exact fun negotiating => absurd negotiating ended
  · intro reading unwanted
    rw [wanted reading] at unwanted
    cases unwanted
  · exact fun negotiating => absurd negotiating ended

theorem Concluded.hearing (concluded : Concluded s err t) (stack : List Frame) : Hearing (t.on stack) :=
  hearing_of_idle concluded.ended.2 concluded.reading

/-- The end of a handshake. -/
theorem Finished.hearing (finished : Finished s err call) (steady : s.connected = true → s.flags.dontRead = false) :
    call.1.aborted = true ∨ Hearing (push call) := by
  cases finished with
  | again connected => exact .inr (hearing_of_idle (by rintro ⟨⟩) fun _ => steady connected)
  | passed _ _ _ passed => exact .inr (passed.toConcluded.hearing _)
  | dead => exact .inr ((concluded s err).hearing _)
  | aborted _ aborted _ => exact .inl aborted
  | nulled _ _ nulled => exact .inr (nulled.toConcluded.hearing _)

private theorem subreqDone_flags (s : State) (err : ErrorCode) (write : Write) :
    (s.subreqDone err write).flags.reading = s.flags.reading ∧
      ((s.subreqDone err write).connected = true → s.connected = true) := by
  unfold subreqDone
  split
  · exact ⟨rfl, (clearOutConnected_flags s).1⟩
  · exact ⟨rfl, id⟩

theorem Hearing.subreqDone (hearing : Hearing s) (err : ErrorCode) (write : Write) :
    Hearing (s.subreqDone err write) := by
  obtain ⟨rest, status, -⟩ := subreqDone_rest s err write
  obtain ⟨reading, connected⟩ := subreqDone_flags s err write
  refine hearing.mono status reading rest.ignoreRead rest.dontRead connected ?_
  unfold Ending
  rw [rest.stack]
  exact id

theorem hearing_doReset (s : State) (clear : Bool) (stack : List Frame) : Hearing ((s.doReset clear).on stack) := by
  apply hearing_of_idle
  · change (s.doReset clear).status ≠ .negotiating
    rw [(doReset_fields s clear).1]
    nofun
  · exact nofun

theorem Refused.hearing {attempt : Attempt} (refused : Refused s attempt call) : Hearing (push call) := by
  have ended : call.1.status ≠ .negotiating := by
    rw [refused.status]
    nofun
  constructor
  · exact fun negotiating => absurd negotiating ended
  · intro _ _
    refine .inr ⟨false, List.mem_append_left _ ?_⟩
    rw [refused.frames]
    exact List.mem_cons_of_mem _ List.mem_cons_self
  · exact fun negotiating => absurd negotiating ended

theorem Plain.hearing {attempt : Attempt} (plain : Plain s err attempt call) (initial : s.status = .initial)
    (hearing : Hearing s) : Hearing (push call) := by
  have ended : call.1.status ≠ .negotiating := by
    rw [plain.status, initial]
    nofun
  constructor
  · exact fun negotiating => absurd negotiating ended
  · intro reading unwanted
    rcases plain.reading reading with before | awake
    · rcases hearing.wanted before (plain.dontRead ▸ unwanted) with negotiating | ⟨clear, member⟩
      · rw [initial] at negotiating
        cases negotiating
      · refine .inr ⟨clear, List.mem_append_right _ ?_⟩
        rw [plain.stack]
        exact member
    · exact absurd unwanted (Bool.eq_false_iff.mp awake)
  · exact fun negotiating => absurd negotiating ended

theorem Atom.hearing (atom : Atom late s t) (shaped : Shaped s) (hearing : Hearing s) :
    t.aborted = true ∨ Hearing t := by
  cases atom with
  | finished err negotiating settled early outcome => exact outcome.hearing (hearing.renegotiation negotiating)
  | @failed write err filtered outstanding failed free =>
    obtain ⟨rest, status, -⟩ := subreqDone_rest s err write
    have fewer := hearing.subreqDone err write
    by_cases ended : (s.subreqDone err write).status = .terminal ∨ (s.subreqDone err write).status = .error
    · rw [negotiationFinished, if_pos ended]
      exact .inr fewer
    · rw [not_or] at ended
      apply (finished_cases (shaped.subreqDone err write).sourced ended).hearing
      intro connected
      by_cases negotiating : s.status = .negotiating
      · exact fewer.renegotiation (status.trans negotiating) connected
      · -- before a handshake nothing is connected
        have initial : s.status = .initial := by
          rw [status] at ended
          cases found : s.status with
          | initial => rfl
          | negotiating => exact absurd found negotiating
          | error => exact absurd found ended.2
          | terminal => exact absurd found ended.1
        rcases shaped.quiet filtered initial with ending | ⟨-, -, apart⟩
        · exact absurd ending free
        · rw [(subreqDone_flags s err write).2 connected] at apart
          cases apart
  | @shaken write _ outstanding negotiating finished own top outcome =>
    have fewer := hearing.subreqDone [] write
    exact outcome.hearing (fewer.renegotiation ((subreqDone_rest s [] write).2.1.trans negotiating))
  | written write => exact .inr (hearing.subreqDone [] write)
  | write => exact .inr (hearing.mono rfl rfl rfl rfl id id)
  | abort => exact .inl rfl
  | enter idle filtered reading heard unfailed unfinished =>
    right
    constructor
    · exact fun _ => ⟨reading, heard⟩
    · exact fun _ _ => .inl rfl
    · intro _ connected
      rw [Bool.eq_false_iff]
      intro unwanted
      rcases hearing.wanted reading unwanted with negotiating | ending
      · exact Bool.eq_false_iff.mp (hearing.renegotiation negotiating connected) unwanted
      · exact not_ending idle ending
  | handshake => exact .inr (hearing.mono rfl rfl rfl rfl id id)
  | read => exact .inr (hearing.mono rfl rfl rfl rfl id id)
  | event =>
    refine .inr (hearing.mono rfl rfl rfl rfl id ?_)
    exact fun ending => ending.imp fun clear member => List.mem_cons_of_mem _ member
  | eof =>
    refine .inr (hearing.mono rfl rfl rfl rfl id ?_)
    exact fun ending => ending.imp fun clear member => List.mem_cons_of_mem _ member
  | closed => exact .inr (hearing.mono rfl rfl rfl rfl id id)
  | append => exact .inr (hearing.mono rfl rfl rfl rfl id id)
  | decode idle => exact .inr (hearing.on fun ending => absurd ending (not_ending idle))
  | negotiate pending idle => exact .inr (hearing.on fun ending => absurd ending (not_ending idle))
  | relabel top work =>
    refine .inr (hearing.on (ending_cons work top fun clear => ?_).mpr)
    simp
  | leave top work => exact .inr (hearing.on (ending_cons work top fun clear => Iff.rfl).mpr)
  | refused filtered current failed => exact .inr (State.refused s _ failed).hearing
  | plain err unfiltered =>
    exact .inr ((State.plain s err _).hearing (shaped.unfiltered unfiltered) hearing)
  | clearIn => exact .inr (hearing.mono rfl rfl rfl rfl (clearInConnected_flags s).1 id)
  | clearOut => exact .inr (hearing.mono rfl rfl rfl rfl (clearOutConnected_flags s).1 id)
  | seen => exact .inr (hearing.mono rfl rfl rfl rfl id id)
  | reset => exact .inr (hearing_doReset s _ _)
  | resetNow clear => exact .inr (hearing_doReset s clear _)
  | dropAccept clear => exact .inr (hearing_doReset _ clear _)
  | retarget clear =>
    exact .inr (hearing.on fun _ => ⟨clear, List.mem_cons_of_mem _ List.mem_cons_self⟩)

/-! ### Every run -/

end State

/-- The user stops no reading and ignores nothing during a handshake, and ignores nothing when one starts. -/
def undisturbed (s : State) (move : Oracle × Move) : Bool :=
  match move.2 with
  | .op .readStop | .op .readIgnore => s.status ≠ .negotiating
  | .input (.accept true) => s.flags.ignoreRead = false
  | .input (.connected []) => s.ssl = false ∨ s.flags.ignoreRead = false
  | _ => true

namespace State

theorem Hearing.readStart (hearing : Hearing s) : Hearing s.readStart := by
  have flags : s.readStart.status = s.status ∧ s.readStart.flags.dontRead = false ∧
      s.readStart.flags.ignoreRead = false ∧ (s.flags.reading = true → s.readStart.flags.reading = true) := by
    unfold State.readStart startReading
    split
    · exact ⟨rfl, rfl, rfl, id⟩
    · split
      · exact ⟨rfl, rfl, rfl, id⟩
      · exact ⟨rfl, rfl, rfl, fun _ => rfl⟩
  obtain ⟨status, awake, heard, reading⟩ := flags
  constructor
  · rw [status]
    exact fun negotiating => ⟨reading (hearing.handshake negotiating).1, heard⟩
  · intro _ unwanted
    rw [awake] at unwanted
    cases unwanted
  · exact fun _ _ => awake

theorem Entry.hearing {oracle : Oracle} (entry : Entry (s.ask oracle) move u)
    (allowed : undisturbed s (oracle, move) = true) (hearing : Hearing (s.ask oracle)) :
    u.aborted = true ∨ Hearing u := by
  cases entry with
  | readStart => exact .inr hearing.readStart
  | readStop =>
    have ended : s.status ≠ .negotiating := by simpa [undisturbed] using allowed
    exact .inr (hearing_of_idle ended nofun)
  | readIgnore =>
    have ended : s.status ≠ .negotiating := by simpa [undisturbed] using allowed
    right
    constructor
    · exact fun negotiating => absurd negotiating ended
    · exact hearing.wanted
    · exact hearing.renegotiation
  | reset => exact .inr hearing
  | connect => exact .inr (hearing.mono rfl rfl rfl rfl id id)
  | dropServer => exact .inr (hearing.mono rfl rfl rfl rfl id id)
  | refused => exact .inr hearing
  | useSsl on disconnected unwritten unread =>
    refine .inr (hearing_of_idle (by rintro ⟨⟩) fun reading => ?_)
    exact absurd reading (Bool.eq_false_iff.mp unread)
  | ret top =>
    refine .inr (hearing.on fun ending => ?_)
    obtain ⟨clear, member⟩ := ending
    rw [top] at member
    exact ⟨clear, List.mem_of_ne_of_mem (by rintro ⟨⟩) member⟩
  | input => exact .inr hearing
  | shaken idle => exact .inr (hearing.on fun ending => absurd ending (not_ending idle))
  | @started move b attempt idle prepared =>
    right
    have heard : s.flags.ignoreRead = false := by
      rcases prepared.origin with ⟨rfl, filtered, -⟩ | ⟨rfl, -⟩
      · have filtered : s.ssl = true := filtered
        simpa [undisturbed, filtered] using allowed
      · simpa [undisturbed] using allowed
    constructor
    · exact fun _ => ⟨rfl, prepared.heard.trans heard⟩
    · exact fun _ _ => .inl rfl
    · intro _ connected
      exact absurd connected (Bool.eq_false_iff.mp prepared.apart)
  | unread idle prepared failed outcome =>
    exact outcome.hearing fun connected => absurd connected (Bool.eq_false_iff.mp prepared.apart)
  | misused => exact .inl rfl
  | accepted idle initial =>
    right
    obtain ⟨t, accepted, result⟩ := accept_plain (s.ask oracle)
    rw [accepted]
    have ended : t.status ≠ .negotiating := by
      rw [result.status]
      nofun
    apply hearing_of_idle (s := push (t, [.user])) ended
    intro reading
    rcases result.reading reading with before | awake
    · rw [Bool.eq_false_iff]
      intro unwanted
      rcases hearing.wanted before (result.dontRead ▸ unwanted) with negotiating | ending
      · rw [initial] at negotiating
        cases negotiating
      · exact not_ending idle ending
    · exact awake

end State

end UniEvent.Ssl
