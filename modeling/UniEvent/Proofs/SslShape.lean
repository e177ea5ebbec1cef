import Mathlib.Data.List.Nodup
import UniEvent.Proofs.SslSteps

/-! # The shape of a state

How the filter's state, its request, its handshake messages and the stack go together, whatever the user and OpenSSL do.
-/

namespace UniEvent.Ssl.State

variable {late : Attempt → Prop} {s t u : State} {err : ErrorCode} {rest : List Frame} {call : State × List Frame}
  {frame : Frame} {attempt : Attempt}

/-- Where a last message that the backend still has comes from: the attempt that waits for it. -/
def Awaited (s : State) (write : Write) : Prop :=
  ∃ attempt, s.attempt = some attempt ∧ attempt.id = write.owner ∧ attempt.tcp = false ∧
    (s.status = .error ∨ s.status = .negotiating ∧ s.initFinished = true ∧ s.source = some write.owner)

structure Shaped (s : State) : Prop where
  owners : (s.writes.map Write.owner).Nodup
  unsourced : s.status = .initial → s.source = none ∧ s.initFinished = false ∧ s.bio = 0 ∧ s.drained = true
  sourced : Sourced s
  finals : ∀ write ∈ s.writes, write.final = true → write.live = true → s.Ending ∨ s.Awaited write
  decoding : .decode ∈ s.stack → s.status ≠ .negotiating
  shaken : .finalWritten ∈ s.stack → s.bio = 0 ∨ s.initFinished = true ∨ s.status = .error
  single : (s.stack.filter Frame.work).length ≤ 1
  unfiltered : s.ssl = false → s.status = .initial
  quiet : s.ssl = true → s.status = .initial →
    s.Ending ∨ (s.flags.established = false ∧ s.flags.reading = false ∧ s.connected = false)
  locked : s.Ending → s.attempt = none
  joined : Joined s

/-- What the stack is looked at for. -/
theorem Shaped.restack {stack : List Frame} (shaped : Shaped s) (ending : (s.on stack).Ending ↔ s.Ending)
    (decoding : .decode ∈ stack → .decode ∈ s.stack ∨ s.status ≠ .negotiating)
    (shaken : .finalWritten ∈ stack → .finalWritten ∈ s.stack ∨ s.initFinished = true)
    (single : (stack.filter Frame.work).length ≤ 1) : Shaped (s.on stack) := by
  constructor
  · exact shaped.owners
  · exact shaped.unsourced
  · exact shaped.sourced
  · intro write member final live
    rcases shaped.finals write member final live with before | awaited
    · exact .inl (ending.mpr before)
    · exact .inr awaited
  · intro member
    rcases decoding member with before | ended
    · exact shaped.decoding before
    · exact ended
  · intro member
    rcases shaken member with before | finished
    · exact shaped.shaken before
    · exact .inr (.inl finished)
  · exact single
  · exact shaped.unfiltered
  · intro filtered initial
    rcases shaped.quiet filtered initial with before | calm
    · exact .inl (ending.mpr before)
    · exact .inr calm
  · intro still
    exact shaped.locked (ending.mp still)
  · exact shaped.joined

/-- A callback changes nothing. -/
theorem Shaped.user (shaped : Shaped s) : Shaped (s.on (.user :: s.stack)) := by
  apply shaped.restack
  · unfold Ending on
    simp
  · intro member
    exact .inl (List.mem_of_ne_of_mem (by decide) member)
  · intro member
    exact .inl (List.mem_of_ne_of_mem (by decide) member)
  · exact shaped.single

theorem Shaped.returned (shaped : Shaped s) (top : s.stack = .user :: rest) : Shaped (s.on rest) := by
  have below {frame : Frame} (member : frame ∈ rest) : frame ∈ s.stack := by
    rw [top]
    exact List.mem_cons_of_mem _ member
  apply shaped.restack
  · unfold Ending on
    rw [top]
    simp
  · exact fun member => .inl (below member)
  · exact fun member => .inl (below member)
  · have single := shaped.single
    rw [top] at single
    exact single

/-- Flags that the stream may change at any time. -/
theorem Shaped.setFlags {flags : Flags} (shaped : Shaped s)
    (connected : (s.setFlags flags).connected = true → s.connected = true)
    (established : flags.established = true → s.flags.established = true)
    (reading : flags.reading = true → s.flags.reading = true ∨ flags.established = true)
    (joined : (s.setFlags flags).Joined) : Shaped (s.setFlags flags) := by
  have fell {a b : Bool} (set : a = true → b = true) (clear : b = false) : a = false := by
    cases a
    · rfl
    · rw [set rfl] at clear
      cases clear
  constructor
  · exact shaped.owners
  · exact shaped.unsourced
  · intro id found
    obtain ⟨apart, known⟩ := shaped.sourced id found
    exact ⟨fell connected apart, known⟩
  · exact shaped.finals
  · exact shaped.decoding
  · exact shaped.shaken
  · exact shaped.single
  · exact shaped.unfiltered
  · intro filtered initial
    rcases shaped.quiet filtered initial with before | ⟨down, stopped, apart⟩
    · exact .inl before
    · right
      refine ⟨fell established down, fell (fun set => ?_) stopped, fell connected apart⟩
      exact (reading set).resolve_right fun up => Bool.eq_false_iff.mp (fell established down) up
  · exact shaped.locked
  · exact joined

/-! ### The end of a handshake -/

theorem Concluded.ended (concluded : Concluded s err t) : t.status ≠ .initial ∧ t.status ≠ .negotiating := by
  rw [concluded.status]
  split
  · exact ⟨nofun, nofun⟩
  · exact ⟨nofun, nofun⟩

theorem filter_work (frames rest : List Frame) (idle : frames = [.user] ∨ frames = [.user, .reset false]) :
    (frames ++ rest).filter Frame.work = rest.filter Frame.work := by
  rcases idle with rfl | rfl
  · rfl
  · rfl

/-- The part of the shape that the end of a handshake leaves to show. -/
theorem Concluded.shaped {frames : List Frame} (shaped : Shaped s) (concluded : Concluded s err t)
    (unended : s.status ≠ .error) (filtered : s.ssl = true)
    (idle : frames = [] ∨ frames = [.user] ∨ frames = [.user, .reset false])
    (owners : (t.writes.map Write.owner).Nodup)
    (finals : ∀ write ∈ t.writes, write.final = true → write.live = true →
      (t.on (frames ++ t.stack)).Ending ∨ t.Awaited write)
    (locked : (t.on (frames ++ t.stack)).Ending → t.attempt = none) : Shaped (t.on (frames ++ t.stack)) := by
  have waits : (frames ++ t.stack).filter Frame.work = s.stack.filter Frame.work := by
    rw [← concluded.stack]
    rcases idle with rfl | someFrames
    · rfl
    · exact filter_work frames _ someFrames
  have still {frame : Frame} (work : frame.work = true) (member : frame ∈ frames ++ t.stack) : frame ∈ s.stack := by
    have waiting : frame ∈ (frames ++ t.stack).filter Frame.work := List.mem_filter.mpr ⟨member, work⟩
    rw [waits] at waiting
    exact (List.mem_filter.mp waiting).1
  constructor
  · exact owners
  · exact fun initial => absurd initial concluded.ended.1
  · intro id found
    change t.source = some id at found
    rw [concluded.source] at found
    cases found
  · exact finals
  · exact fun _ => concluded.ended.2
  · intro member
    change t.bio = 0 ∨ t.initFinished = true ∨ t.status = .error
    rw [concluded.bio, concluded.initFinished]
    rcases shaped.shaken (still rfl member) with empty | finished | failed
    · exact .inl empty
    · exact .inr (.inl finished)
    · exact absurd failed unended
  · change ((frames ++ t.stack).filter Frame.work).length ≤ 1
    rw [waits]
    exact shaped.single
  · intro plain
    change t.ssl = false at plain
    rw [concluded.ssl, filtered] at plain
    cases plain
  · exact fun _ initial => absurd initial concluded.ended.1
  · exact locked
  · exact concluded.joined shaped.joined

theorem Passed.shaped (shaped : Shaped s) (passed : Passed s err attempt call) (unended : s.status ≠ .error)
    (filtered : s.ssl = true) (current : s.attempt = some attempt) (own : s.source = some attempt.id)
    (settled : err = [] → s.Alone) : Shaped (push call) := by
  apply passed.toConcluded.shaped shaped unended filtered (.inr passed.frames)
  · rw [passed.writes]
    split
    · exact shaped.owners
    · exact shaped.owners.sublist (List.filter_sublist.map _)
  · intro write member final live
    have held : write ∈ s.writes ∧ (attempt.kept = false → write.owner ≠ attempt.id) := by
      rw [passed.writes] at member
      split at member
      · rename_i kept
        rw [kept]
        exact ⟨member, nofun⟩
      · rw [List.mem_filter] at member
        exact ⟨member.1, fun _ => by simpa using member.2⟩
    left
    rcases shaped.finals write held.1 final live with ending | ⟨other, found, owned, -, -⟩
    · rw [shaped.locked ending] at current
      cases current
    · rw [current] at found
      cases found
      have failed : err ≠ [] := by
        intro succeeded
        apply settled succeeded write held.1 final live
        rw [own, owned]
      by_cases client : s.profile = .client
      · refine ⟨false, List.mem_append_left _ ?_⟩
        rw [passed.ending failed client]
        exact List.mem_cons_of_mem _ List.mem_cons_self
      · obtain ⟨-, other, found, -, -, dropped⟩ := shaped.sourced attempt.id own
        rw [current] at found
        cases found
        exact absurd owned.symm (held.2 (dropped client))
  · exact fun _ => passed.ended

/-- The request stays where it is. -/
theorem Concluded.shaped_kept {frames : List Frame} (shaped : Shaped s) (concluded : Concluded s err t)
    (unended : s.status ≠ .error) (filtered : s.ssl = true) (idle : frames = [] ∨ frames = [.user])
    (writes : t.writes = s.writes) (attempt : t.attempt = s.attempt) (settled : err = [] → s.Alone) :
    Shaped (t.on (frames ++ t.stack)) := by
  have ending : (t.on (frames ++ t.stack)).Ending ↔ s.Ending := by
    unfold Ending State.on
    rw [concluded.stack]
    rcases idle with rfl | rfl
    · rfl
    · simp
  apply concluded.shaped shaped unended filtered
  · rcases idle with rfl | rfl
    · exact .inl rfl
    · exact .inr (.inl rfl)
  · rw [writes]
    exact shaped.owners
  · rw [writes]
    intro write member final live
    rcases shaped.finals write member final live with before | ⟨other, found, owned, answered, phase⟩
    · exact .inl (ending.mpr before)
    · right
      refine ⟨other, attempt.trans found, owned, answered, .inl ?_⟩
      rw [concluded.status]
      rcases phase with failed | ⟨-, -, own⟩
      · exact absurd failed unended
      · rw [if_neg]
        intro succeeded
        exact settled succeeded write member final live own
  · rw [attempt, ending]
    exact shaped.locked

theorem Finished.shaped (finished : Finished s err call) (shaped : Shaped s) (unended : s.status ≠ .error)
    (filtered : s.ssl = true) (settled : err = [] → s.Alone) : call.1.aborted = true ∨ Shaped (push call) := by
  cases finished with
  | again connected =>
    right
    have unsourced : s.source = none := by
      cases found : s.source with
      | none => rfl
      | some id =>
        have apart := (shaped.sourced id found).1
        rw [connected] at apart
        cases apart
    constructor
    · exact shaped.owners
    · exact nofun
    · exact shaped.sourced
    · intro write member final live
      rcases shaped.finals write member final live with before | ⟨_, _, _, _, failed | ⟨_, _, own⟩⟩
      · exact .inl before
      · exact absurd failed unended
      · rw [unsourced] at own
        cases own
    · exact fun _ => nofun
    · intro member
      rcases shaped.shaken member with empty | done | failed
      · exact .inl empty
      · exact .inr (.inl done)
      · exact absurd failed unended
    · exact shaped.single
    · intro plain
      change s.ssl = false at plain
      rw [filtered] at plain
      cases plain
    · exact fun _ => nofun
    · exact shaped.locked
    · exact shaped.joined
  | passed _ current own passed => exact .inr (passed.shaped shaped unended filtered current own settled)
  | dead =>
    right
    exact (concluded s err).shaped_kept shaped unended filtered (.inl rfl) (conclude_kept s err).1
      (conclude_kept s err).2.2.2 settled
  | aborted _ aborted _ => exact .inl aborted
  | nulled _ _ nulled =>
    right
    exact nulled.toConcluded.shaped_kept shaped unended filtered (.inr rfl) nulled.writes nulled.attempt settled

/-- The end of a handshake, if it is not over. -/
theorem Shaped.negotiationFinished (shaped : Shaped s) (filtered : s.ssl = true)
    (settled : s.status ≠ .error → err = [] → s.Alone) :
    (s.negotiationFinished err).1.aborted = true ∨ Shaped (push (s.negotiationFinished err)) := by
  by_cases ended : s.status = .terminal ∨ s.status = .error
  · rw [State.negotiationFinished, if_pos ended]
    exact .inr shaped
  · rw [not_or] at ended
    exact (finished_cases shaped.sourced ended).shaped shaped ended.2 filtered (settled ended.2)

/-! ### The other steps -/

theorem Shaped.fewer {writes : List Write} (shaped : Shaped s) (fewer : writes.Sublist s.writes) :
    Shaped { s with writes := writes } := by
  constructor
  · exact shaped.owners.sublist (fewer.map _)
  · exact shaped.unsourced
  · exact shaped.sourced
  · intro write member
    exact shaped.finals write (fewer.subset member)
  · exact shaped.decoding
  · exact shaped.shaken
  · exact shaped.single
  · exact shaped.unfiltered
  · exact shaped.quiet
  · exact shaped.locked
  · exact shaped.joined

theorem Shaped.log (shaped : Shaped s) (event : Event) : Shaped (s.log event) :=
  { shaped with }

theorem Shaped.seen (shaped : Shaped s) : Shaped { s with eofSeen := true } :=
  { shaped with }

theorem Shaped.dropServer (shaped : Shaped s) : Shaped { s with serverAlive := false } :=
  { shaped with }

theorem clearInConnected_flags (s : State) :
    (s.clearInConnected.connected = true → s.connected = true) ∧
      (s.clearInConnected.flags.established = true → s.flags.established = true) ∧
      (s.Joined → s.clearInConnected.Joined) := by
  cases out : s.flags.outConnected <;> cases s.flags.inConnected <;>
    simp_all [Joined, connected, State.clearInConnected, setFlags]

theorem clearOutConnected_flags (s : State) :
    (s.clearOutConnected.connected = true → s.connected = true) ∧
      (s.clearOutConnected.flags.established = true → s.flags.established = true) ∧
      (s.Joined → s.clearOutConnected.Joined) := by
  cases inside : s.flags.inConnected <;> cases s.flags.outConnected <;>
    simp_all [Joined, connected, State.clearOutConnected, setFlags]

theorem Shaped.clearInConnected (shaped : Shaped s) : Shaped s.clearInConnected := by
  obtain ⟨connected, established, joined⟩ := clearInConnected_flags s
  exact shaped.setFlags connected established .inl (joined shaped.joined)

theorem Shaped.clearOutConnected (shaped : Shaped s) : Shaped s.clearOutConnected := by
  obtain ⟨connected, established, joined⟩ := clearOutConnected_flags s
  exact shaped.setFlags connected established .inl (joined shaped.joined)

/-- What a handshake message that is done leaves alone. -/
theorem subreqDone_rest (s : State) (err : ErrorCode) (write : Write) :
    Rest s (s.subreqDone err write) ∧ (s.subreqDone err write).status = s.status ∧
      (s.subreqDone err write).source = s.source ∧ (s.subreqDone err write).attempt = s.attempt ∧
      (s.subreqDone err write).trace = s.trace := by
  unfold subreqDone
  split
  · exact ⟨by constructor <;> rfl, rfl, rfl, rfl, rfl⟩
  · exact ⟨by constructor <;> rfl, rfl, rfl, rfl, rfl⟩

theorem Shaped.subreqDone (shaped : Shaped s) (err : ErrorCode) (write : Write) : Shaped (s.subreqDone err write) := by
  have fewer := shaped.fewer (@List.filter_sublist _ (fun other => other.id ≠ write.id) s.writes)
  unfold State.subreqDone
  split
  · exact fewer.clearOutConnected
  · exact fewer

/-- The message that is done was the only one of its owner. -/
theorem Shaped.subreqDone_alone {write : Write} (shaped : Shaped s) (outstanding : write ∈ s.writes)
    (other : Write) (left : other ∈ (s.subreqDone err write).writes) : other.owner ≠ write.owner := by
  have kept : other ∈ s.writes ∧ other.id ≠ write.id := by
    change other ∈ s.writes.filter (fun other => other.id ≠ write.id) at left
    simpa using left
  intro same
  apply kept.2
  rw [List.inj_on_of_nodup_map shaped.owners kept.1 outstanding same]

theorem Shaped.write {owner : ℕ} {final : Bool} (shaped : Shaped s) (own : s.source = some owner)
    (first : ∀ write ∈ s.writes, write.owner ≠ owner)
    (ready : final = true → s.status = .negotiating ∧ s.initFinished = true) :
    Shaped { s with
      writes := { id := s.nextId, owner := owner, final := final, live := true } :: s.writes
      nextId := s.nextId + 1 } := by
  constructor
  · simp only [List.map_cons, List.nodup_cons]
    refine ⟨?_, shaped.owners⟩
    intro member
    obtain ⟨write, held, same⟩ := List.mem_map.mp member
    exact first write held same
  · exact shaped.unsourced
  · exact shaped.sourced
  · intro write member last live
    rcases List.mem_cons.mp member with rfl | held
    · right
      obtain ⟨-, attempt, current, same, answered, -⟩ := shaped.sourced owner own
      exact ⟨attempt, current, same, answered, .inr ⟨(ready last).1, (ready last).2, own⟩⟩
    · exact shaped.finals write held last live
  · exact shaped.decoding
  · exact shaped.shaken
  · exact shaped.single
  · exact shaped.unfiltered
  · exact shaped.quiet
  · exact shaped.locked
  · exact shaped.joined

theorem not_ending (idle : s.stack = []) : ¬ s.Ending := by
  rintro ⟨clear, member⟩
  rw [idle] at member
  cases member

/-- Before SSL is initialised no last message has been sent. -/
theorem Shaped.no_final {write : Write} (shaped : Shaped s) (idle : s.stack = []) (unfailed : s.status ≠ .error)
    (unfinished : s.initFinished = false) (member : write ∈ s.writes) (final : write.final = true) :
    write.live ≠ true := by
  intro live
  rcases shaped.finals write member final live with ending | ⟨_, _, _, _, failed | ⟨_, finished, _⟩⟩
  · exact not_ending idle ending
  · exact unfailed failed
  · rw [unfinished] at finished
    cases finished

theorem Shaped.enter (shaped : Shaped s) (idle : s.stack = []) (filtered : s.ssl = true) (unfailed : s.status ≠ .error)
    (unfinished : s.initFinished = false) : Shaped { s with status := .negotiating } := by
  have unread (frame : Frame) : frame ∉ s.stack := by
    rw [idle]
    exact List.not_mem_nil
  constructor
  · exact shaped.owners
  · exact nofun
  · exact shaped.sourced
  · intro write member final live
    exact absurd live (shaped.no_final idle unfailed unfinished member final)
  · exact fun member => absurd member (unread _)
  · exact fun member => absurd member (unread _)
  · exact shaped.single
  · intro plain
    change s.ssl = false at plain
    rw [filtered] at plain
    cases plain
  · exact fun _ => nofun
  · exact shaped.locked
  · exact shaped.joined

theorem Shaped.doHandshake (shaped : Shaped s) (idle : s.stack = []) (negotiating : s.status = .negotiating)
    (unfinished : s.initFinished = false) : Shaped s.doHandshake := by
  have begun : s.status ≠ .initial := by
    rw [negotiating]
    nofun
  have unfailed : s.status ≠ .error := by
    rw [negotiating]
    nofun
  constructor
  · exact shaped.owners
  · exact fun initial => absurd initial begun
  · exact shaped.sourced
  · intro write member final live
    exact absurd live (shaped.no_final idle unfailed unfinished member final)
  · exact shaped.decoding
  · intro member
    change .finalWritten ∈ s.stack at member
    rw [idle] at member
    cases member
  · exact shaped.single
  · exact shaped.unfiltered
  · exact fun _ initial => absurd initial begun
  · exact shaped.locked
  · exact shaped.joined

/-- `SSL_read` is not called during a handshake. -/
theorem Shaped.sslRead (shaped : Shaped s) (top : s.stack = .decode :: rest) (begun : s.status ≠ .initial)
    (ended : s.status ≠ .negotiating) : Shaped s.sslRead := by
  constructor
  · exact shaped.owners
  · exact fun initial => absurd initial begun
  · exact shaped.sourced
  · intro write member final live
    rcases shaped.finals write member final live with before | ⟨attempt, current, owned, answered, failed | shaking⟩
    · exact .inl before
    · exact .inr ⟨attempt, current, owned, answered, .inl failed⟩
    · exact absurd shaking.1 ended
  · exact shaped.decoding
  · intro member
    change .finalWritten ∈ s.stack at member
    have single := shaped.single
    rw [top] at member single
    have below : .finalWritten ∈ rest.filter Frame.work :=
      List.mem_filter.mpr ⟨List.mem_of_ne_of_mem (by decide) member, rfl⟩
    have someLeft := List.length_pos_of_mem below
    simp only [List.filter_cons, Frame.work, if_true, List.length_cons] at single
    omega
  · exact shaped.single
  · exact shaped.unfiltered
  · exact shaped.quiet
  · exact shaped.locked
  · exact shaped.joined

theorem Shaped.setBuf {length : ℕ} (shaped : Shaped s) (begun : s.status ≠ .initial)
    (place : s.stack = [.decode] ∨ s.stack = []) : Shaped (s.setBuf length) := by
  constructor
  · exact shaped.owners
  · exact fun initial => absurd initial begun
  · exact shaped.sourced
  · exact shaped.finals
  · exact shaped.decoding
  · intro member
    change .finalWritten ∈ s.stack at member
    rcases place with decoding | idle
    · rw [decoding] at member
      simp at member
    · rw [idle] at member
      cases member
  · exact shaped.single
  · exact shaped.unfiltered
  · exact shaped.quiet
  · exact shaped.locked
  · exact shaped.joined

/-! ### The stack -/

theorem Frame.work_ne_reset {clear : Bool} (work : frame.work = true) : frame ≠ .reset clear := by
  rintro rfl
  cases work

/-- A frame that works is no reset to come. -/
theorem ending_cons {stack rest : List Frame} (work : frame.work = true) (top : s.stack = frame :: rest)
    (same : ∀ clear, .reset clear ∈ stack ↔ .reset clear ∈ rest) : (s.on stack).Ending ↔ s.Ending := by
  unfold Ending
  rw [top]
  apply exists_congr
  intro clear
  rw [List.mem_cons]
  constructor
  · exact fun member => .inr ((same clear).mp member)
  · rintro (wrong | member)
    · exact absurd wrong.symm (Frame.work_ne_reset work)
    · exact (same clear).mpr member

section

variable (shaped : Shaped s) (top : s.stack = frame :: rest) (work : frame.work = true)

include shaped top work

private theorem single_cons : (rest.filter Frame.work).length = 0 := by
  have single := shaped.single
  rw [top, List.filter_cons, if_pos work, List.length_cons] at single
  omega

theorem Shaped.leave : Shaped (s.on rest) := by
  apply shaped.restack
  · exact ending_cons work top fun clear => Iff.rfl
  · intro member
    rw [top]
    exact .inl (List.mem_cons_of_mem _ member)
  · intro member
    rw [top]
    exact .inl (List.mem_cons_of_mem _ member)
  · rw [single_cons shaped top work]
    exact Nat.zero_le 1

theorem Shaped.relabel (ended : s.status ≠ .negotiating) : Shaped (s.on (.decode :: rest)) := by
  apply shaped.restack
  · apply ending_cons work top
    intro clear
    simp
  · exact fun _ => .inr ended
  · intro member
    rw [top]
    exact .inl (List.mem_cons_of_mem _ (List.mem_of_ne_of_mem (by decide) member))
  · have none := single_cons shaped top work
    change (rest.filter Frame.work).length + 1 ≤ 1
    omega

end

theorem Shaped.start (shaped : Shaped s) (idle : s.stack = []) (work : frame.work = true)
    (decoding : frame = .decode → s.status ≠ .negotiating) (shaken : frame = .finalWritten → s.initFinished = true) :
    Shaped (s.on [frame]) := by
  apply shaped.restack
  · unfold Ending on
    rw [idle]
    simp [(Frame.work_ne_reset work).symm]
  · intro member
    exact .inr (decoding (List.mem_singleton.mp member).symm)
  · intro member
    exact .inr (shaken (List.mem_singleton.mp member).symm)
  · simp [work]

theorem Shaped.retarget (shaped : Shaped s) (clear : Bool) (idle : s.attempt = none)
    (top : s.stack = .user :: rest ∨ s.stack = .user :: .reset false :: rest) :
    Shaped (s.on (.user :: .reset clear :: rest)) := by
  have still {frame : Frame} (work : frame.work = true) (member : frame ∈ .user :: .reset clear :: rest) :
      frame ∈ s.stack := by
    have below : frame ∈ rest := by
      apply List.mem_of_ne_of_mem (Frame.work_ne_reset work) (List.mem_of_ne_of_mem ?_ member)
      rintro rfl
      cases work
    rcases top with top | top
    · rw [top]
      exact List.mem_cons_of_mem _ below
    · rw [top]
      exact List.mem_cons_of_mem _ (List.mem_cons_of_mem _ below)
  have ending : (s.on (.user :: .reset clear :: rest)).Ending :=
    ⟨clear, List.mem_cons_of_mem _ List.mem_cons_self⟩
  constructor
  · exact shaped.owners
  · exact shaped.unsourced
  · exact shaped.sourced
  · exact fun _ _ _ _ => .inl ending
  · intro member
    exact shaped.decoding (still rfl member)
  · intro member
    exact shaped.shaken (still rfl member)
  · have single := shaped.single
    rcases top with top | top
    · rw [top] at single
      exact single
    · rw [top] at single
      exact single
  · exact shaped.unfiltered
  · exact fun _ _ => .inl ending
  · exact fun _ => idle
  · exact shaped.joined

/-! ### Attempts that end without a handshake, and resets -/

theorem Refused.shaped (refused : Refused s attempt call) (shaped : Shaped s) : Shaped (push call) := by
  have ending : (push call).Ending := by
    refine ⟨false, List.mem_append_left _ ?_⟩
    rw [refused.frames]
    exact List.mem_cons_of_mem _ List.mem_cons_self
  have renewed : call.1.source = none ∧ call.1.initFinished = false ∧ call.1.bio = 0 ∧ call.1.drained = true := by
    rcases refused.renewed with ⟨initial, source, finished, bio, drained⟩ | renewed
    · rw [source, finished, bio, drained]
      exact shaped.unsourced initial
    · exact renewed
  constructor
  · change (call.1.writes.map Write.owner).Nodup
    rw [refused.writes]
    split
    · exact shaped.owners
    · exact shaped.owners.sublist (List.filter_sublist.map _)
  · exact fun _ => renewed
  · intro id found
    change call.1.source = some id at found
    rw [renewed.1] at found
    cases found
  · exact fun _ _ _ _ => .inl ending
  · intro _
    change call.1.status ≠ .negotiating
    rw [refused.status]
    nofun
  · exact fun _ => .inl renewed.2.2.1
  · change ((call.2 ++ call.1.stack).filter Frame.work).length ≤ 1
    rw [filter_work _ _ (.inr refused.frames), refused.stack]
    exact shaped.single
  · exact fun _ => refused.status
  · exact fun _ _ => .inl ending
  · exact fun _ => refused.ended
  · change call.1.connected = true → call.1.flags.established = true
    unfold connected
    rw [refused.flags]
    exact shaped.joined

theorem Plain.shaped (plain : Plain s err attempt call) (shaped : Shaped s) (unfiltered : s.ssl = false) :
    Shaped (push call) := by
  have initial : s.status = .initial := shaped.unfiltered unfiltered
  obtain ⟨unsourced, rest⟩ := shaped.unsourced initial
  constructor
  · change (call.1.writes.map Write.owner).Nodup
    rw [plain.writes]
    split
    · exact shaped.owners
    · exact shaped.owners.sublist (List.filter_sublist.map _)
  · intro _
    change call.1.source = none ∧ call.1.initFinished = false ∧ call.1.bio = 0 ∧ call.1.drained = true
    rw [plain.source, plain.initFinished, plain.bio, plain.drained]
    exact shaped.unsourced initial
  · intro id found
    change call.1.source = some id at found
    rw [plain.source, unsourced] at found
    cases found
  · intro write member final live
    have held : write ∈ s.writes := by
      change write ∈ call.1.writes at member
      rw [plain.writes] at member
      split at member
      · exact member
      · exact (List.mem_filter.mp member).1
    rcases shaped.finals write held final live with ⟨clear, before⟩ | ⟨_, _, _, _, failed | ⟨shaking, _, _⟩⟩
    · left
      refine ⟨clear, List.mem_append_right _ ?_⟩
      rw [plain.stack]
      exact before
    · rw [initial] at failed
      cases failed
    · rw [initial] at shaking
      cases shaking
  · intro _
    change call.1.status ≠ .negotiating
    rw [plain.status, initial]
    nofun
  · intro _
    change call.1.bio = 0 ∨ _
    rw [plain.bio]
    exact .inl rest.2.1
  · change ((call.2 ++ call.1.stack).filter Frame.work).length ≤ 1
    rw [filter_work _ _ plain.frames, plain.stack]
    exact shaped.single
  · exact fun _ => plain.status.trans initial
  · intro filtered
    change call.1.ssl = true at filtered
    rw [plain.ssl, unfiltered] at filtered
    cases filtered
  · exact fun _ => plain.ended
  · exact plain.joined shaped.joined

/-- A reset starts the filter again. -/
theorem doReset_fields (s : State) (clear : Bool) :
    (s.doReset clear).status = .initial ∧ (s.doReset clear).attempt = s.attempt ∧
      (s.doReset clear).writes = s.writes.map (fun write : Write => { write with live := false }) ∧
      (s.doReset clear).nextId = s.nextId ∧ (s.doReset clear).oracle = s.oracle ∧
      (s.doReset clear).trace = .reset :: s.trace := by
  have same : s.filterReset.status = .initial ∧ s.filterReset.attempt = s.attempt ∧ s.filterReset.writes = s.writes ∧
      s.filterReset.nextId = s.nextId ∧ s.filterReset.oracle = s.oracle ∧ s.filterReset.trace = s.trace := by
    unfold filterReset
    split
    · rename_i initial
      exact ⟨initial, rfl, rfl, rfl, rfl, rfl⟩
    · exact ⟨rfl, rfl, rfl, rfl, rfl, rfl⟩
  obtain ⟨status, attempt, writes, nextId, oracle, trace⟩ := same
  exact ⟨status, attempt, congrArg _ writes, nextId, oracle, congrArg _ trace⟩

/-- After a reset nothing is under way. -/
theorem doReset_shaped (clear : Bool) (owners : (s.writes.map Write.owner).Nodup)
    (unsourced : s.status = .initial → s.source = none ∧ s.initFinished = false ∧ s.bio = 0 ∧ s.drained = true)
    (single : (rest.filter Frame.work).length ≤ 1) (idle : s.attempt = none) : Shaped ((s.doReset clear).on rest) := by
  have renewed : s.filterReset.source = none ∧ s.filterReset.initFinished = false ∧ s.filterReset.bio = 0 ∧
      s.filterReset.drained = true := by
    unfold filterReset
    split
    · rename_i initial
      exact unsourced initial
    · exact ⟨rfl, rfl, rfl, rfl⟩
  obtain ⟨initial, attempt, writes, -⟩ := doReset_fields s clear
  constructor
  · change ((s.doReset clear).writes.map Write.owner).Nodup
    rw [writes, List.map_map]
    exact owners
  · exact fun _ => renewed
  · intro id found
    change s.filterReset.source = some id at found
    rw [renewed.1] at found
    cases found
  · intro write member _ live
    change write ∈ (s.doReset clear).writes at member
    rw [writes] at member
    obtain ⟨before, -, rfl⟩ := List.mem_map.mp member
    cases live
  · intro _
    change (s.doReset clear).status ≠ .negotiating
    rw [initial]
    nofun
  · exact fun _ => .inl renewed.2.2.1
  · exact single
  · exact fun _ => initial
  · exact fun _ _ => .inr ⟨rfl, rfl, rfl⟩
  · exact fun _ => attempt.trans idle
  · exact nofun

theorem Shaped.doReset (shaped : Shaped s) (clear : Bool) (fewer : rest.Sublist s.stack) (idle : s.attempt = none) :
    Shaped ((s.doReset clear).on rest) :=
  doReset_shaped clear shaped.owners shaped.unsourced (Nat.le_trans (fewer.filter _).length_le shaped.single) idle

/-- The request of an accept is dropped with the handshake that it is for. -/
theorem Shaped.dropAccept (shaped : Shaped s) (attempt : Attempt) (clear : Bool) :
    Shaped ((s.finish attempt).resetNow clear) := by
  have rest := finish_rest s attempt
  obtain ⟨-, status, source, -, ended, writes, -⟩ := finish_fields s attempt
  apply doReset_shaped
  · rw [writes]
    split
    · exact shaped.owners
    · exact shaped.owners.sublist (List.filter_sublist.map _)
  · rw [status, source, rest.initFinished, rest.bio, rest.drained]
    exact shaped.unsourced
  · rw [rest.stack]
    exact Nat.le_trans (List.filter_sublist.filter _).length_le shaped.single
  · exact ended

/-- Every step keeps the shape. -/
theorem Atom.shaped (atom : Atom late s t) (shaped : Shaped s) : t.aborted = true ∨ Shaped t := by
  have filtered (negotiating : s.status = .negotiating) : s.ssl = true := by
    cases ssl : s.ssl with
    | true => rfl
    | false =>
      rw [shaped.unfiltered ssl] at negotiating
      cases negotiating
  cases atom with
  | finished err negotiating settled early outcome =>
    have unended : s.status ≠ .error := by
      rw [negotiating]
      nofun
    exact outcome.shaped shaped unended (filtered negotiating) fun succeeded => (settled succeeded).2.1
  | failed ssl outstanding failed free =>
    apply (shaped.subreqDone _ _).negotiationFinished ((subreqDone_rest s _ _).1.ssl.trans ssl)
    exact fun _ succeeded => absurd succeeded failed
  | @shaken write _ outstanding negotiating finished own top outcome =>
    obtain ⟨rest, status, source, -⟩ := subreqDone_rest s [] write
    apply outcome.shaped (shaped.subreqDone _ _)
    · rw [status, negotiating]
      nofun
    · exact rest.ssl.trans (filtered negotiating)
    · intro _ other left _ _ same
      apply shaped.subreqDone_alone outstanding other left
      rw [source, own] at same
      exact (Option.some.inj same).symm
  | written write => exact .inr (shaped.subreqDone [] write)
  | write own first ready => exact .inr (shaped.write own first ready)
  | abort => exact .inl rfl
  | enter idle ssl reading heard unfailed unfinished => exact .inr (shaped.enter idle ssl unfailed unfinished)
  | handshake idle negotiating unfinished => exact .inr (shaped.doHandshake idle negotiating unfinished)
  | read top begun ended => exact .inr (shaped.sslRead top begun ended)
  | event err => exact .inr (shaped.log _).user
  | eof => exact .inr (shaped.log _).user
  | closed => exact .inr (shaped.log _)
  | append length begun place => exact .inr (shaped.setBuf begun (place.imp_right And.left))
  | decode idle ended => exact .inr (shaped.start idle rfl (fun _ => ended) (by rintro ⟨⟩))
  | negotiate pending idle => exact .inr (shaped.start idle rfl (by rintro ⟨⟩) (by rintro ⟨⟩))
  | relabel top work ended => exact .inr (shaped.relabel top work ended)
  | leave top work reason => exact .inr (shaped.leave top work)
  | refused ssl current failed unwritten => exact .inr ((State.refused s _ failed).shaped shaped)
  | plain err unfiltered current => exact .inr ((State.plain s err _).shaped shaped unfiltered)
  | clearIn => exact .inr shaped.clearInConnected
  | clearOut => exact .inr shaped.clearOutConnected
  | seen => exact .inr shaped.seen
  | reset top =>
    right
    apply shaped.doReset
    · rw [top]
      exact List.sublist_cons_self _ _
    · apply shaped.locked
      exact ⟨_, top ▸ List.mem_cons_self⟩
  | resetNow clear idle => exact .inr (shaped.doReset clear List.filter_sublist idle)
  | dropAccept clear current server => exact .inr (shaped.dropAccept _ clear)
  | retarget clear idle top => exact .inr (shaped.retarget clear idle top)

end UniEvent.Ssl.State
