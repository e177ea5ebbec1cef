import UniEvent.Program.Log
import UniEvent.Program.Machine
import UniEvent.Proofs.SslMoves

/-! # Outcomes belong to attempts

The outcome of a handshake may come from the handshake itself, from a message that was written or has failed, from the
end of the input, or from a cancellation. Whichever comes first ends the attempt: what else comes later finds no request
to pass on.
-/

namespace UniEvent.Ssl

open Program

/-- The attempt that has neither had its outcome nor left the queue. -/
def underWay : List Event → Option ℕ
  | [] | .up (some _) :: _ | .ended _ _ :: _ => none
  | .attempt id :: _ => some id
  | .up none :: earlier | .connected :: earlier | .reset :: earlier | .readEvent _ :: earlier | .eofEvent :: earlier
  | .closed :: earlier => underWay earlier

/-- Attempts follow each other, and a request is passed on while its attempt is under way. -/
def OutcomeAt : Event → List Event → Prop
  | .attempt _, earlier => underWay earlier = none
  | .up (some id), earlier => underWay earlier = some id
  | _, _ => True

namespace State

variable {late : Attempt → Prop} {s t u : State} {err : ErrorCode} {move : Move} {attempt : Attempt}
  {earlier : List Event}

structure Reported (s : State) : Prop where
  along : Along OutcomeAt s.trace
  current : underWay s.trace = s.attempt.map Attempt.id

/-- What holds of the call that aborts, too. -/
def Told (s : State) : Prop := Along OutcomeAt s.trace ∧ (s.aborted = true ∨ Reported s)

theorem Reported.told (reported : Reported s) : Told s := ⟨reported.along, .inr reported⟩

theorem Reported.same (reported : Reported s) (trace : t.trace = s.trace) (attempt : t.attempt = s.attempt) :
    Reported t := by
  constructor
  · rw [trace]
    exact reported.along
  · rw [trace, attempt]
    exact reported.current

/-- The request leaves the queue. -/
theorem reported_ended {id : ℕ} {outlived : Bool} (along : Along OutcomeAt earlier)
    (trace : t.trace = .ended id outlived :: earlier) (ended : t.attempt = none) : Reported t := by
  constructor
  · rw [trace]
    exact ⟨trivial, along⟩
  · rw [trace, ended]
    rfl

theorem along_successes {ok : Bool} (along : Along OutcomeAt earlier) : Along OutcomeAt (successes ok ++ earlier) := by
  cases ok with
  | false => exact along
  | true => exact ⟨trivial, along⟩

/-- Success is no outcome by itself. -/
theorem reported_successes {ok : Bool} (trace : t.trace = successes ok ++ earlier) (along : Along OutcomeAt earlier)
    (current : underWay earlier = t.attempt.map Attempt.id) : Reported t := by
  constructor
  · rw [trace]
    exact along_successes along
  · rw [trace, ← current]
    cases ok with
    | false => rfl
    | true => rfl

/-- The request of the attempt is passed on. -/
theorem Reported.up (reported : Reported s) (current : s.attempt = some attempt) :
    Along OutcomeAt (.up (some attempt.id) :: s.trace) := by
  have underWay := reported.current
  rw [current] at underWay
  exact ⟨underWay, reported.along⟩

theorem Finished.reported {call : State × List Frame} (finished : Finished s err call) (reported : Reported s) :
    Told (push call) := by
  cases finished with
  | again => exact Reported.told (reported.same rfl rfl)
  | passed _ current _ passed =>
    exact Reported.told
      (reported_ended (t := push call) (along_successes (reported.up current)) passed.trace passed.ended)
  | dead =>
    obtain ⟨-, trace, -, attempt⟩ := conclude_kept s err
    exact Reported.told (reported.same trace attempt)
  | aborted _ aborted trace =>
    have along : Along OutcomeAt (push call).trace := by
      rw [push, trace]
      exact ⟨trivial, reported.along⟩
    exact ⟨along, .inl aborted⟩
  | @nulled t _ _ nulled =>
    have current : underWay (.up none :: s.trace) = t.attempt.map Attempt.id := by
      rw [nulled.attempt]
      exact reported.current
    exact Reported.told (reported_successes (t := push (t, [.user])) nulled.trace ⟨trivial, reported.along⟩ current)

theorem Reported.doReset (reported : Reported s) (clear : Bool) : Reported (s.doReset clear) := by
  obtain ⟨-, attempt, -, -, -, trace⟩ := doReset_fields s clear
  constructor
  · rw [trace]
    exact ⟨trivial, reported.along⟩
  · rw [trace, attempt]
    exact reported.current

theorem Atom.reported (atom : Atom late s t) (shaped : Shaped s) (reported : Reported s) : Told t := by
  have done (err : ErrorCode) (write : Write) : Reported (s.subreqDone err write) := by
    obtain ⟨-, -, -, attempt, trace⟩ := subreqDone_rest s err write
    exact reported.same trace attempt
  cases atom with
  | finished err negotiating settled early outcome => exact outcome.reported reported
  | @failed write err =>
    by_cases ended : (s.subreqDone err write).status = .terminal ∨ (s.subreqDone err write).status = .error
    · rw [negotiationFinished, if_pos ended]
      exact Reported.told ((done err write).same rfl rfl)
    · rw [not_or] at ended
      exact (finished_cases (shaped.subreqDone err write).sourced ended).reported (done err write)
  | @shaken write _ outstanding negotiating finished own top outcome => exact outcome.reported (done [] write)
  | written write => exact Reported.told (done [] write)
  | abort => exact ⟨reported.along, .inl rfl⟩
  | write | enter | handshake | read | append | decode | negotiate | relabel | leave | clearIn | clearOut | seen
  | retarget => exact Reported.told (reported.same rfl rfl)
  | event | eof | closed => exact Reported.told ⟨⟨trivial, reported.along⟩, reported.current⟩
  | @refused attempt err filtered current failed =>
    have result := State.refused s attempt failed
    exact Reported.told (reported_ended (t := push _) (reported.up current) result.trace result.ended)
  | @plain attempt err =>
    have result := State.plain s err attempt
    exact Reported.told (reported_ended (t := push _) (along_successes reported.along) result.trace result.ended)
  | reset => exact Reported.told ((reported.doReset _).same rfl rfl)
  | resetNow clear => exact Reported.told ((reported.doReset clear).same rfl rfl)
  | @dropAccept attempt clear =>
    obtain ⟨-, -, -, -, ended, -, trace⟩ := finish_fields s attempt
    exact Reported.told (((reported_ended reported.along trace ended).doReset clear).same rfl rfl)

theorem Prepared.reported {b : State} (prepared : Prepared s move b attempt) (reported : Reported s) : Reported b := by
  rcases prepared.origin with ⟨-, -, trace, -, before, current, -, rfl⟩ | ⟨-, idle, -, trace, -, rfl⟩
  · constructor
    · rw [trace]
      exact reported.along
    · rw [trace, prepared.current, reported.current, current]
      rfl
  · have none := reported.current
    rw [idle] at none
    constructor
    · rw [trace]
      exact ⟨none, reported.along⟩
    · rw [trace, prepared.current]
      rfl

theorem Entry.reported (entry : Entry s move u) (reported : Reported s) : Told u := by
  cases entry with
  | readStart =>
    rcases startReading_same (s.setFlags { s.flags with dontRead := false, ignoreRead := false }) with same | same
    all_goals
      rw [State.readStart, same]
      exact Reported.told (reported.same rfl rfl)
  | readStop | readIgnore | reset | dropServer | refused | useSsl | ret | input | shaken =>
    exact Reported.told (reported.same rfl rfl)
  | connect kept idle =>
    have none := reported.current
    rw [idle] at none
    exact Reported.told ⟨⟨none, reported.along⟩, rfl⟩
  | started _ prepared => exact Reported.told ((prepared.reported reported).same rfl rfl)
  | unread _ prepared _ outcome => exact outcome.reported ((prepared.reported reported).same rfl rfl)
  | misused prepared => exact ⟨(prepared.reported reported).along, .inl rfl⟩
  | accepted =>
    obtain ⟨t, accepted, result⟩ := accept_plain s
    rw [accepted]
    have current : underWay s.trace = t.attempt.map Attempt.id := result.attempt ▸ reported.current
    exact Reported.told (reported_successes (t := push (t, [.user])) result.trace reported.along current)

end State

/-- The handshake of a client ends at once. -/
def resumed : List (Oracle × Move) :=
  [({}, .op (.connect false)), ({ handshake := { finished := true } }, .input (.connected []))]

end UniEvent.Ssl
