import UniEvent.Model.StreamerStream
import UniEvent.Proofs.StreamerPhase

/-! # The output of a streamer and its chunks

As long as other code does not write to the stream after the first chunk of a run and before its end, the chunks are the
newest writes of the stream, and `first_wreq` is the oldest of them. This is kept by every call that the input and the
user may make.
-/

namespace UniEvent.Streamer.ToStream

open Program Program.Exec Relation

variable {ι : Type} {e : Ends (Link ι)} {s t : World (Link ι)} {event : Event} {err : Option Failure} {l : Link ι}

/-- Nobody calls a streamer that is stopping its ends. It is started when it is idle, data comes while it is running,
and the end of the input does not come during the start. -/
def CallAt : Event → List Event → Prop
  | .start, before => phase before = .idle
  | .read _ none, before => phase before = .running
  | .eof, before => phase before = .idle ∨ phase before = .running
  | .read _ (some _), before | .write _, before | .stop, before => phase before ≠ .stopping
  | _, _ => True

instance : ∀ (event : Event) (before : List Event), Decidable (CallAt event before)
  | .start, before => inferInstanceAs (Decidable (phase before = .idle))
  | .read _ none, before => inferInstanceAs (Decidable (phase before = .running))
  | .eof, before => inferInstanceAs (Decidable (phase before = .idle ∨ phase before = .running))
  | .read _ (some _), before | .write _, before | .stop,
    before => inferInstanceAs (Decidable (phase before ≠ .stopping))
  | .started, _ | .written _, _ | .size _, _ | .pause, _ | .paused, _ | .resume, _ | .resumed _, _ | .stopping, _
  | .finish _, _ => .isTrue trivial

/-! ### The writes of the stream -/

/-- Other writes come before the chunks. As long as there may be other writes, `first_wreq` is the first chunk. -/
structure Shape (l : Link ι) (old chunks : List Wreq) : Prop where
  queue : l.queue = old ++ chunks
  others : ∀ wreq ∈ old, wreq.own = false ∧ l.firstWreq ≠ some wreq.id
  owns : ∀ wreq ∈ chunks, wreq.own = true
  first : (l.handleWriteStarted = true ∧ old = [] ∧ l.firstWreq ≠ none) ∨
    (l.handleWriteStarted = false ∧ l.firstWreq = chunks.head?.map Wreq.id)

/-- The output does not listen to the stream, which has no chunks. -/
structure Silent (l : Link ι) : Prop where
  listening : l.listening = false
  firstWreq : l.firstWreq = none
  handleWriteStarted : l.handleWriteStarted = false
  queue : ∀ wreq ∈ l.queue, wreq.own = false

theorem Shape.other {old chunks : List Wreq} (shape : Shape l old chunks) (data : Data) (none : l.firstWreq = none) :
    ∃ old, Shape (l.other data) old [] := by
  have empty : chunks = [] ∧ l.handleWriteStarted = false := by
    rcases shape.first with ⟨_, _, some⟩ | ⟨idle, first⟩
    · exact absurd none some
    · rw [none] at first
      cases chunks with
      | nil => exact ⟨rfl, idle⟩
      | cons => cases first
  refine ⟨old ++ [⟨l.made, data, false⟩], ?_, fun wreq member => ?_, nofun, .inr ⟨empty.2, none⟩⟩
  · change l.queue ++ _ = _
    rw [shape.queue, empty.1, List.append_nil, List.append_nil]
  · refine ⟨?_, by rw [show (l.other data).firstWreq = l.firstWreq from rfl, none]; exact nofun⟩
    rcases List.mem_append.mp member with before | last
    · exact (shape.others wreq before).1
    · rw [List.mem_singleton.mp last]

theorem Shape.write {old chunks : List Wreq} (shape : Shape l old chunks) (data : Data)
    (ids : ∀ wreq ∈ l.queue, wreq.id < l.made) : Shape (l.write data) old (chunks ++ [⟨l.made, data, true⟩]) := by
  have here (wreq : Wreq) (member : wreq ∈ old) : wreq ∈ l.queue := by
    rw [shape.queue]
    exact List.mem_append_left _ member
  have first : (l.write data).firstWreq = l.firstWreq.or (some l.made) := rfl
  refine ⟨?_, fun wreq member => ⟨(shape.others wreq member).1, ?_⟩, fun wreq member => ?_, ?_⟩
  · change l.queue ++ _ = _
    rw [shape.queue, List.append_assoc]
  · rw [first]
    cases known : l.firstWreq with
    | none =>
      have older := ids wreq (here wreq member)
      simp only [Option.none_or, ne_eq, Option.some.injEq]
      omega
    | some id =>
      rw [Option.some_or, ← known]
      exact (shape.others wreq member).2
  · rcases List.mem_append.mp member with before | last
    · exact shape.owns wreq before
    · rw [List.mem_singleton.mp last]
  · rw [first]
    rcases shape.first with ⟨going, empty, known⟩ | ⟨idle, known⟩
    · refine .inl ⟨going, empty, ?_⟩
      cases same : l.firstWreq with
      | none => exact absurd same known
      | some id => exact nofun
    · refine .inr ⟨idle, ?_⟩
      rw [known]
      cases chunks with
      | nil => rfl
      | cons => rfl

/-! ### Stream, fields and trace -/

/-- What the output keeps agrees with the trace, except that a chunk may have failed. -/
structure Base (s : World (Link ι)) : Prop where
  ids : ∀ wreq ∈ s.env.queue, wreq.id < s.env.made
  prevLst : s.env.prevLst = false
  handed : s.env.handed = reads s.trace
  completed : s.env.completed = acks s.trace
  silent : phase s.trace = .idle ∨ phase s.trace = .starting → Silent s.env
  listening : phase s.trace = .running ∨ phase s.trace = .stopping → s.env.listening = true
  shape : phase s.trace = .running ∨ phase s.trace = .stopping → ∃ old chunks, Shape s.env old chunks
  held : phase s.trace = .stopping → s.self.nread = reads s.trace ∧ s.self.nwrite = acks s.trace ∧
    acks s.trace ≤ reads s.trace
  reports : ∀ report ∈ s.env.reports, report.status = none → report.completed = report.handed

/-- The same, and the chunks that are not completed are in the queue. -/
structure Out (s : World (Link ι)) : Prop extends Base s where
  count : phase s.trace = .running → s.env.handed = s.env.completed + s.env.queue.countP (·.own)

theorem Base.neutral {events : List Event} (base : Base s) (trace : t.trace = events ++ s.trace)
    (neutral : ∀ event ∈ events, event.isNeutral = true) (env : t.env = s.env) (nread : t.self.nread = s.self.nread)
    (nwrite : t.self.nwrite = s.self.nwrite) : Base t := by
  obtain ⟨phase', reads', acks', -⟩ := neutral_append neutral s.trace
  rw [← trace] at phase' reads' acks'
  refine ⟨?_, ?_, ?_, ?_, ?_, ?_, ?_, ?_, ?_⟩
  · rw [env]
    exact base.ids
  · rw [env]
    exact base.prevLst
  · rw [env, reads']
    exact base.handed
  · rw [env, acks']
    exact base.completed
  · rw [env, phase']
    exact base.silent
  · rw [env, phase']
    exact base.listening
  · rw [env, phase']
    exact base.shape
  · rw [nread, nwrite, phase', reads', acks']
    exact base.held
  · rw [env]
    exact base.reports

theorem Out.neutral {events : List Event} (out : Out s) (trace : t.trace = events ++ s.trace)
    (neutral : ∀ event ∈ events, event.isNeutral = true) (env : t.env = s.env) (nread : t.self.nread = s.self.nread)
    (nwrite : t.self.nwrite = s.self.nwrite) : Out t := by
  refine ⟨out.toBase.neutral trace neutral env nread nwrite, ?_⟩
  rw [env, trace, (neutral_append neutral s.trace).1]
  exact out.count

theorem Base.log (base : Base s) (neutral : event.isNeutral = true) : Base (s.log event) :=
  base.neutral (show (s.log event).trace = [event] ++ s.trace from rfl)
    (fun _ member => List.mem_singleton.mp member ▸ neutral) rfl rfl rfl

/-- An assignment that is noted. -/
theorem Out.assign (out : Out s) (neutral : event.isNeutral = true) (trace : t.trace = event :: s.trace)
    (env : t.env = s.env) (nread : t.self.nread = s.self.nread) (nwrite : t.self.nwrite = s.self.nwrite) : Out t :=
  out.neutral (show t.trace = [event] ++ s.trace from trace)
    (fun _ member => List.mem_singleton.mp member ▸ neutral) env
    nread nwrite

theorem Out.log (out : Out s) (neutral : event.isNeutral = true) : Out (s.log event) :=
  out.assign neutral rfl rfl rfl rfl

/-- A change of what the input keeps. -/
theorem Out.input (out : Out s) (new : ι) : Out (setEnv (fun l => { l with input := new }) s) :=
  ⟨{ out with
    silent := fun rests => ⟨(out.silent rests).1, (out.silent rests).2, (out.silent rests).3, (out.silent rests).4⟩,
    shape := fun runs => (out.shape runs).imp fun _ some => some.imp fun _ shape =>
      ⟨shape.1, shape.2, shape.3, shape.4⟩ }, out.count⟩

private theorem ids_push (ids : ∀ wreq ∈ l.queue, wreq.id < l.made) (data : Data) (own : Bool) :
    ∀ wreq ∈ (l.push data own).queue, wreq.id < (l.push data own).made := by
  intro wreq member
  change wreq.id < l.made + 1
  rcases List.mem_append.mp member with before | last
  · exact (ids wreq before).trans (Nat.lt_succ_self _)
  · rw [List.mem_singleton.mp last]
    exact Nat.lt_succ_self _

theorem Out.other (out : Out s) (data : Data) (apart : (setEnv (Link.other data) s).env.mixed = false) :
    Out (setEnv (Link.other data) s) := by
  have first : s.env.firstWreq = none := by
    have both : (s.env.mixed || s.env.firstWreq.isSome) = false := apart
    rw [Bool.or_eq_false_iff] at both
    exact Option.isSome_eq_false_iff.mp both.2 |> Option.isNone_iff_eq_none.mp
  refine ⟨{ out with ids := ids_push out.ids data false, silent := fun rests => ?_, shape := fun runs => ?_ },
    fun running => ?_⟩
  · obtain ⟨listening, firstWreq, idle, queue⟩ := out.silent rests
    refine ⟨listening, firstWreq, idle, fun wreq member => ?_⟩
    rcases List.mem_append.mp member with before | last
    · exact queue wreq before
    · rw [List.mem_singleton.mp last]
  · obtain ⟨old, chunks, shape⟩ := out.shape runs
    obtain ⟨old, shape⟩ := shape.other data first
    exact ⟨old, [], shape⟩
  · change s.env.handed = s.env.completed + (s.env.queue ++ [_]).countP _
    rw [out.count running, List.countP_append]
    rfl

theorem Out.fresh (out : Out s) (idle : phase s.trace = .idle) : Out (setEnv Link.fresh (s.log .start)) := by
  obtain ⟨listening, firstWreq, waits, queue⟩ := out.silent (.inl idle)
  refine ⟨⟨out.ids, out.prevLst, rfl, rfl, fun _ => ⟨listening, firstWreq, waits, queue⟩, ?_, ?_, nofun, out.reports⟩,
    nofun⟩
  · rintro (running | stopping)
    · cases running
    · cases stopping
  · rintro (running | stopping)
    · cases running
    · cases stopping

theorem Out.begin (out : Out s) (inv : Inv s) (starting : phase s.trace = .starting) :
    Out (setEnv Link.start s).begin := by
  obtain ⟨listening, firstWreq, waits, queue⟩ := out.silent (.inr starting)
  obtain ⟨-, reads', acks'⟩ := inv.fresh starting
  have shape : Shape (Link.start s.env) s.env.queue [] := by
    refine ⟨(List.append_nil _).symm, fun wreq member => ⟨queue wreq member, ?_⟩, nofun, .inr ⟨waits, firstWreq⟩⟩
    rw [show (Link.start s.env).firstWreq = s.env.firstWreq from rfl, firstWreq]
    exact nofun
  refine ⟨⟨out.ids, listening, out.handed, out.completed, ?_, fun _ => rfl, fun _ => ⟨_, _, shape⟩, nofun, out.reports⟩,
    fun _ => ?_⟩
  · rintro (idle | starting)
    · cases idle
    · cases starting
  · change s.env.handed = s.env.completed + s.env.queue.countP _
    rw [out.handed, out.completed, reads', acks', List.countP_eq_zero.mpr]
    intro wreq member
    rw [queue wreq member]
    exact Bool.false_ne_true

/-- The start has failed. -/
theorem Out.failed (out : Out s) (starting : phase s.trace = .starting) (failure : Failure) :
    Out (s.log (.finish (some failure))) := by
  refine ⟨{ out with silent := fun _ => out.silent (.inr starting), listening := ?_, shape := ?_, held := nofun },
    nofun⟩
  · rintro (running | stopping)
    · cases running
    · cases stopping
  · rintro (running | stopping)
    · cases running
    · cases stopping

theorem Out.read (out : Out s) (running : phase s.trace = .running) (data : Data) :
    Out (setEnv (Link.write data) (s.onRead data none)) := by
  have running' : phase (setEnv (Link.write data) (s.onRead data none)).trace = .running := running
  obtain ⟨old, chunks, shape⟩ := out.shape (.inl running)
  refine ⟨⟨ids_push out.ids data true, out.prevLst, congrArg (· + 1) out.handed, out.completed, ?_,
    fun _ => out.listening (.inl running),
    fun _ => ⟨_, _, shape.write data out.ids⟩, ?_, out.reports⟩, fun _ => ?_⟩
  · rw [running']
    rintro (idle | starting)
    · cases idle
    · cases starting
  · rw [running']
    exact nofun
  · change s.env.handed + 1 = s.env.completed + (s.env.queue ++ [_]).countP _
    rw [out.count running, List.countP_append]
    rfl

theorem Base.stopping (base : Base s) (tally : Tally s) (running : phase s.trace = .running) :
    Out (s.log .stopping) := by
  obtain ⟨nread, nwrite, bound, -⟩ := tally.counts running
  refine ⟨{ base with
    silent := ?_, listening := fun _ => base.listening (.inl running),
    shape := fun _ => base.shape (.inl running), held := fun _ => ⟨nread, nwrite, bound⟩ }, nofun⟩
  rintro (idle | starting)
  · cases idle
  · cases starting

theorem Out.stop (out : Out s) (err : Option Failure) : Out ((setEnv Link.stop s).finished err) := by
  have silent : Silent (Link.stop s.env) := by
    refine ⟨out.prevLst, rfl, rfl, fun wreq member => ?_⟩
    obtain ⟨old, _, rfl⟩ := List.mem_map.mp member
    rfl
  refine ⟨⟨fun wreq member => ?_, out.prevLst, out.handed, out.completed, fun _ => silent, ?_, ?_, nofun, out.reports⟩,
    nofun⟩
  · obtain ⟨old, among, rfl⟩ := List.mem_map.mp member
    exact out.ids old among
  · rintro (running | stopping)
    · cases running
    · cases stopping
  · rintro (running | stopping)
    · cases running
    · cases stopping

theorem Out.record (out : Out s) (right : err = none → s.env.completed = s.env.handed) :
    Out (setEnv (Link.record err) s) := by
  refine ⟨{ out with
    silent := fun rests => ⟨(out.silent rests).1, (out.silent rests).2, (out.silent rests).3, (out.silent rests).4⟩,
    shape := fun runs => (out.shape runs).imp fun _ some => some.imp fun _ shape =>
      ⟨shape.1, shape.2, shape.3, shape.4⟩,
    reports := fun report member => ?_ }, out.count⟩
  rcases List.mem_cons.mp member with rfl | before
  · exact right
  · exact out.reports report before

/-! ### The contract -/

/-- The trace grows, what other code has written stays noted, and acknowledgements are not made up. -/
structure Later (s t : World (Link ι)) : Prop where
  grows : Grows s t
  mixed : s.env.mixed = true → t.env.mixed = true
  clean : Along CallAt t.trace → Clean s → Clean t

instance : Std.Refl (Later (ι := ι)) := ⟨fun _ => ⟨Std.Refl.refl _, id, fun _ clean => clean⟩⟩

theorem Later.trans {m : World (Link ι)} (first : Later s m) (second : Later m t) : Later s t :=
  ⟨IsTrans.trans _ _ _ first.grows second.grows, fun mixed => second.mixed (first.mixed mixed),
    fun calls clean => second.clean calls (first.clean (calls.earlier second.grows.trace) clean)⟩

instance : IsTrans (World (Link ι)) Later := ⟨fun _ _ _ => Later.trans⟩

/-- The run is clean, and other code has not written between the chunks. -/
def Good (s : World (Link ι)) : Prop := Clean s ∧ s.env.mixed = false

theorem good_back (s t : World (Link ι)) (later : Later s t) (good : Good t) : Good s := by
  refine ⟨clean_back _ _ later.grows good.1, ?_⟩
  cases mixed : s.env.mixed with
  | false => rfl
  | true =>
    have still := later.mixed mixed
    rw [good.2] at still
    cases still

/-- Wherever a call leads. -/
structure Leads (s t : World (Link ι)) : Prop extends Advance s t, Later s t where
  out : Good t → Inv s → Out s → Out t

/-- A call that comes back. -/
structure Comes (s t : World (Link ι)) : Prop extends Leads s t, Settle s t

instance : Std.Refl (Leads (ι := ι)) := ⟨fun _ => ⟨Std.Refl.refl _, id, fun _ clean => clean, fun _ _ out => out⟩⟩

instance : Std.Refl (Comes (ι := ι)) := ⟨fun s => ⟨Std.Refl.refl s, (Std.Refl.refl s : Settle s s).settled⟩⟩

instance : IsTrans (World (Link ι)) Leads := by
  refine ⟨fun s m t first second => ?_⟩
  have later := first.toLater.trans second.toLater
  refine ⟨first.toAdvance.trans second.toAdvance, later.mixed, later.clean, fun good inv out => ?_⟩
  have back := good_back m t second.toLater good
  exact second.out good (first.inv back.1 inv) (first.out back inv out)

instance : IsTrans (World (Link ι)) Comes :=
  ⟨fun _ _ _ first second => ⟨IsTrans.trans _ _ _ first.toLeads second.toLeads,
    (IsTrans.trans _ _ _ first.toSettle second.toSettle : Settle _ _).settled⟩⟩

/-- How a call ends in a good run. -/
structure Fine {α : Type} (s : World (Link ι)) (o : Outcome α) (t : World (Link ι)) : Prop extends Done s o t where
  out : Out t

theorem method_fine {α : Type} {m : Exec (World (Link ι)) α} (makes : Makes Leads Comes m) (inv : Inv s) (out : Out s) :
    wp m (Surely Later Good s (Fine s)) s := by
  refine wp_mono (makes s) fun o t made => ⟨made.1.toLater, fun good => ?_⟩
  exact ⟨⟨made.1.inv good.1 inv, made.1.still good.1, made.1.begins good.1 inv, fun value same settled =>
    (made.2 value same).settled good.1 inv settled⟩, made.1.out good inv out⟩

private theorem calm_inner (inner : event.isCall = false) (before : List Event) : CalmAt event before := by
  cases event with
  | start | stop | read | write | eof => cases inner
  | _ => trivial

theorem Later.notes (notes : Notes s t) : Later s t := by
  refine ⟨notes.grows, fun mixed => notes.env ▸ mixed, fun _ clean => ?_⟩
  rcases notes.trace with same | ⟨event, inner, longer⟩
  · rw [Clean, same]
    exact clean
  · rw [Clean, longer]
    exact ⟨calm_inner inner _, clean⟩

theorem plain_later (s t : World (Link ι)) (notes : Notes s t) : Later s t ∧ Later s t := ⟨.notes notes, .notes notes⟩

theorem Later.log (s : World (Link ι)) (inner : event.isCall = false) : Later s (s.log event) :=
  .notes (.log s inner)

theorem Later.setEnv (s : World (Link ι)) {f : Link ι → Link ι} (mixed : (f s.env).mixed = s.env.mixed) :
    Later s (setEnv f s) := ⟨⟨List.suffix_refl _, rfl, rfl⟩, fun before => mixed.trans before, fun _ clean => clean⟩

theorem setEnv_later {f : Link ι → Link ι} (mixed : ∀ l, (f l).mixed = l.mixed) :
    Makes Later Later (modify (setEnv f)) := .modify (fun s => .setEnv s (mixed _)) fun s => .setEnv s (mixed _)

/-- A call comes at the right time. -/
theorem Later.enter (c : Call) (apart : ∀ err, c ≠ .write err) (s : World (Link ι)) : Later s (c.enter s) := by
  refine ⟨enter_grows c s, fun mixed => ?_, fun calls clean => ?_⟩
  · rw [← mixed]
    cases c <;> rfl
  · rw [Clean, enter_trace]
    rw [enter_trace] at calls
    refine ⟨?_, clean⟩
    cases c with
    | start | stop | eof => exact calls.1
    | read data err => cases err <;> exact calls.1
    | write err => exact absurd rfl (apart err)

theorem inv_setEnv (inv : Inv s) (f : Link ι → Link ι) : Inv (setEnv f s) :=
  inv.alike ⟨⟨[], rfl, nofun⟩, rfl, rfl, rfl, rfl, id⟩

section

variable (keeps : e.Keeps Leads Comes)

include keeps

/-- The output keeps the contracts that do not ask about it. -/
theorem ends_later : (ends e).Keeps Later Later := by
  have later : e.Keeps Later Later := keeps.mono (fun _ _ move => move.toLater) fun _ _ back => back.toLater
  refine ⟨?_, later.inputStop, later.startReading, later.stopReading, ?_, ?_, fun data => ?_, fun err => ?_⟩
  · exact .bind (setEnv_later fun _ => rfl) fun _ => later.inputStart
  · exact .bind (setEnv_later fun _ => rfl) fun _ => .pure _
  · exact setEnv_later fun _ => rfl
  · exact .bind (setEnv_later fun _ => rfl) fun _ => .pure _
  · exact .bind (setEnv_later fun _ => rfl) fun _ => later.finishEvent err

theorem ends_settle : (ends e).Keeps Advance Settle := by
  have settle : e.Keeps Advance Settle := keeps.mono (fun _ _ move => move.toAdvance) fun _ _ back => back.toSettle
  have own (f : Link ι → Link ι) : Makes Advance Settle (modify (setEnv f)) :=
    .modify (fun s => (env_keeps s _).1) fun s => (env_keeps s _).2
  refine ⟨?_, settle.inputStop, settle.startReading, settle.stopReading, ?_, own _, fun data => ?_, fun err => ?_⟩
  · exact .bind (own _) fun _ => settle.inputStart
  · exact .bind (own _) fun _ => .pure _
  · exact .bind (own _) fun _ => .pure _
  · exact .bind (own _) fun _ => settle.finishEvent err

/-! ### The calls -/

/-- The listeners of `finish_event` are called. -/
theorem finishEvent_out (inv : Inv s) (out : Out s) (right : err = none → s.env.completed = s.env.handed) :
    wp ((ends e).finishEvent err) (Surely Later Good s fun _ => Out) s := by
  simp only [ends]
  rw [wp_modify_bind]
  have later : Later s (setEnv (Link.record err) s) := .setEnv s rfl
  refine surely_after later ?_
  exact surely_mono (method_fine (keeps.finishEvent err) (inv_setEnv inv _) (out.record right)) fun _ _ fine => fine.out

private theorem finish_running_out (base : Base s) (tally : Tally s) (running : phase s.trace = .running)
    (right : err = none ↔ ended s.trace = true ∧ acks s.trace = reads s.trace) : wp (do
      modify (World.log .stopping)
      (ends e).inputStop
      (ends e).outputStop
      modify (World.finished err)
      (ends e).finishEvent err) (Surely Later Good s fun _ => Out) s := by
  have later := ends_later keeps
  have finishing : Makes (Later (ι := ι)) Later (modify (World.finished err)) :=
    assign_makes plain_later (finished_notes err)
  rw [wp_modify_bind]
  refine surely_after (.log s rfl) (surely_bind good_back
    (method_fine keeps.inputStop (stopping_inv tally running) (base.stopping tally running))
    (fun _ t _ => (Makes.bind later.outputStop (fun _ => .bind finishing fun _ => later.finishEvent err) t).1)
    (fun _ _ fine => fine.out) fun _ t before _ fine => surely_after before ?_)
  obtain ⟨_, trace⟩ := fine.still rfl
  have stopped := fine.out.stop err
  rw [wp_bind, show (ends e).outputStop = modify (setEnv Link.stop) from rfl, wp_modify, next_done]
  have quit : Later t (setEnv Link.stop t) := .setEnv t rfl
  refine surely_after quit ?_
  rw [wp_modify_bind]
  have finished : Later (setEnv Link.stop t) ((setEnv Link.stop t).finished err) :=
    .notes (finished_notes err _)
  refine surely_after finished (finishEvent_out keeps ?_ stopped fun good => ?_)
  · exact finished_inv tally running right trace
  · rw [stopped.completed, stopped.handed]
    change acks t.trace = reads t.trace
    rw [trace]
    exact (right.mp good).2

theorem finish_out (base : Base s) (tally : Tally s) (calm : phase s.trace ≠ .stopping)
    (right : phase s.trace = .running → (err = none ↔ ended s.trace = true ∧ acks s.trace = reads s.trace)) :
    wp (finish (ends e) err) (Surely Later Good s fun _ => Out) s := by
  simp only [finish]
  rw [wp_get_bind, wp_when]
  constructor
  · intro started
    have running := tally.running calm started
    exact finish_running_out keeps base tally running (right running)
  · intro idle
    exact ⟨Std.Refl.refl s, fun _ => ⟨base, fun running => absurd (tally.busy running) idle⟩⟩

theorem finish_failed_out (failure : Failure) (base : Base s) (inv : Inv s) (calm : phase s.trace ≠ .stopping) :
    wp (finish (ends e) (some failure)) (Surely Later Good s fun _ => Out) s :=
  finish_out keeps base inv.toTally calm fun running => ⟨nofun, fun all => absurd all.2 (inv.going running all.1).2⟩

/-- A failure is noted and reported. -/
theorem failed_out (failure : Failure) (neutral : event.isNeutral = true) (later : Later s (s.log event))
    (base : Base s) (inv : Inv s) (calm : phase s.trace ≠ .stopping) :
    wp (finish (ends e) (some failure)) (Surely Later Good s fun _ => Out) (s.log event) := by
  have alike := Alike.log s neutral
  refine surely_after later (finish_failed_out keeps failure (base.log neutral)
    (inv.alike alike) ?_)
  rw [alike.phase]
  exact calm

omit keeps in
private theorem queueSize_out {f : ℕ → Exec (World (Link ι)) Unit}
    (rest : ∀ n, wp (f n) (Surely Later Good (s.log (.size n)) fun _ => Out) (s.log (.size n))) :
    wp (queueSize (ends e) >>= f) (Surely Later Good s fun _ => Out) s := by
  simp only [queueSize]
  rw [wp_bind, wp_get_bind, wp_modify_bind, wp_pure, next_done]
  exact surely_after (.log s rfl) (rest _)

private theorem throttle_out (inv : Inv s) (out : Out s) :
    wp (throttle (ends e)) (Surely Later Good s fun _ => Out) s := by
  have later := ends_later keeps
  simp only [throttle]
  rw [wp_get_bind, wp_when]
  refine ⟨fun _ => queueSize_out fun n => ?_, fun _ => ⟨Std.Refl.refl s, fun _ => out⟩⟩
  have alike := Alike.log s (show (Event.size n).isNeutral = true from rfl)
  have out' := out.log (show (Event.size n).isNeutral = true from rfl)
  rw [wp_when]
  refine ⟨fun _ => ?_, fun _ => ⟨Std.Refl.refl _, fun _ => out'⟩⟩
  rw [wp_modify_bind]
  have alike' := Alike.log (s.log (.size n)) (show Event.pause.isNeutral = true from rfl)
  have holding : Makes (Later (ι := ι)) Later (modify World.hold) :=
    assign_makes plain_later hold_notes
  refine surely_after (.log _ rfl) (surely_bind good_back (method_fine keeps.stopReading
    ((inv.alike alike).alike alike') (out'.log rfl)) (fun _ t _ => (holding t).1) (fun _ _ fine => fine.out)
    fun _ t before _ fine => ⟨IsTrans.trans _ _ _ before (holding t).1, fun _ => ?_⟩)
  exact fine.out.assign (show Event.paused.isNeutral = true from rfl) rfl rfl rfl rfl

private theorem unthrottle_out (inv : Inv s) (settled : Settled s) (out : Out s) :
    wp (unthrottle (ends e)) (Surely Later Good s fun _ => Out) s := by
  have later := ends_later keeps
  simp only [unthrottle]
  rw [wp_get_bind, wp_when]
  refine ⟨fun _ => queueSize_out fun n => ?_, fun _ => ⟨Std.Refl.refl s, fun _ => out⟩⟩
  have out' := out.log (show (Event.size n).isNeutral = true from rfl)
  obtain ⟨inv', settled'⟩ := inv.settled_alike settled (Alike.log s (show (Event.size n).isNeutral = true from rfl))
  rw [wp_when]
  refine ⟨fun _ => ?_, fun _ => ⟨Std.Refl.refl _, fun _ => out'⟩⟩
  rw [wp_modify_bind]
  obtain ⟨inv', settled'⟩ := inv'.settled_alike settled' (Alike.log _ (show Event.resume.isNeutral = true from rfl))
  have release : Makes (Later (ι := ι)) Later (modify World.release) :=
    assign_makes plain_later release_notes
  refine surely_after (.log _ rfl) (surely_bind good_back (method_fine keeps.startReading inv' (out'.log rfl))
    (fun rerr t _ => ?_) (fun _ _ fine => fine.out) fun rerr t before _ fine => surely_after before ?_)
  · cases rerr with
    | some rerr => exact (Makes.bind (log_makes plain_later rfl) (fun _ => finish_makes plain_later later _) t).1
    | none => exact (release t).1
  · cases rerr with
    | some rerr =>
      rw [wp_modify_bind]
      exact failed_out keeps _ rfl (.log t rfl) fine.out.toBase fine.inv (fine.settled _ rfl settled').calm
    | none =>
      refine ⟨(release t).1, fun _ => ?_⟩
      exact fine.out.assign (show (Event.resumed none).isNeutral = true from rfl) rfl rfl rfl rfl

private theorem handleRead_out {data : Data} {err : Option Err} (inv : Inv s) (out : Out s)
    (calm : CalmAt (.read data err) s.trace) :
    wp (handleRead (ends e) data err) (Surely Later Good s fun _ => Out) s := by
  simp only [handleRead]
  rw [wp_modify_bind]
  cases err with
  | some err =>
    exact failed_out keeps _ (show (Event.read data (some err)).isNeutral = true from rfl)
      (.enter (.read data (some err)) (by rintro _ ⟨⟩) s) out.toBase inv calm
  | none =>
    have running : phase s.trace = .running := calm
    let m := setEnv (Link.write data) (s.onRead data none)
    have later : Later s m := (Later.enter (.read data none) (by rintro _ ⟨⟩) s).trans (.setEnv _ rfl)
    have written : (Event.written none).isNeutral = true := rfl
    have inv' : Inv m := inv_setEnv (onRead_inv data inv running) _
    have alike := Alike.log m written
    have rest :
      wp (throttle (ends e)) (Surely Later Good (m.log (.written none)) fun _ => Out) (m.log (.written none)) :=
      throttle_out keeps (inv'.alike alike) ((out.read running data).log written)
    exact surely_after later (surely_after (.log m rfl) rest)

private theorem handleEof_out (inv : Inv s) (settled : Settled s) (out : Out s) :
    wp (handleEof (ends e)) (Surely Later Good s fun _ => Out) s := by
  have out' : Out (s.log .eof) :=
    ⟨{ out with }, out.count⟩
  simp only [handleEof]
  rw [wp_modify_bind, wp_get_bind]
  refine surely_after (.enter .eof (by rintro _ ⟨⟩) s) ?_
  split
  · rename_i all
    have calm : phase (s.log .eof).trace ≠ .stopping := settled.calm
    exact finish_out keeps out'.toBase (eof_tally inv settled) calm fun running =>
      ⟨fun _ => eof_right inv all running, fun _ => rfl⟩
  · refine ⟨.notes ⟨rfl, .inl rfl, rfl, rfl⟩, fun _ => ?_⟩
    exact ⟨⟨out'.ids, out'.prevLst, out'.handed, out'.completed, out'.silent, out'.listening, out'.shape, out'.held,
      out'.reports⟩, out'.count⟩

/-- A chunk is acknowledged. -/
theorem handleWrite_out (inv : Inv s) (calm : CalmAt (.write none) s.trace) (out : Out (s.onWrite none)) :
    wp (handleWrite (ends e) none) (Surely Later Good (s.onWrite none) fun _ => Out) s := by
  obtain ⟨running, due⟩ := calm
  have running' : phase (s.onWrite none).trace = .running := running
  simp only [handleWrite]
  rw [wp_modify_bind, wp_get_bind]
  split
  · rename_i all
    exact finish_out keeps out.toBase (onWrite_tally inv running due) (by rw [running']; exact (by rintro ⟨⟩))
      fun _ => ⟨fun _ => onWrite_right inv running all, fun _ => rfl⟩
  · rename_i more
    exact unthrottle_out keeps (onWrite_inv inv running due more) (.inr running') out

/-- The start has failed. -/
theorem start_failed_out (failure : Failure) (inv : Inv s) (starting : phase s.trace = .starting) (out : Out s) :
    wp (do
      modify (World.log (.finish (some failure)))
      (ends e).finishEvent (some failure)) (Surely Later Good s fun _ => Out) s := by
  rw [wp_modify_bind]
  exact surely_after (.log s rfl)
    (finishEvent_out keeps (failed_inv failure inv starting) (out.failed starting failure) nofun)

private theorem start_out (inv : Inv s) (idle : phase s.trace = .idle) (out : Out s) :
    wp (start (ends e)) (Surely Later Good s fun _ => Out) s := by
  have later := ends_later keeps
  let m := setEnv Link.fresh (s.log .start)
  have fresh : Later s m := (Later.enter .start (by rintro _ ⟨⟩) s).trans (.setEnv _ rfl)
  have failing (failure : Failure) : Makes (Later (ι := ι)) Later (do
      modify (World.log (.finish (some failure)))
      (ends e).finishEvent (some failure)) := .bind (log_makes plain_later rfl) fun _ => later.finishEvent _
  have begins : Makes (Later (ι := ι)) Later (do
      modify (setEnv Link.start)
      modify World.begin) :=
    .bind (setEnv_later fun _ => rfl) fun _ => assign_makes plain_later begin_notes
  refine surely_after fresh ?_
  rw [start, wp_modify_bind]
  change wp ((modify (setEnv Link.fresh) >>= fun _ => e.inputStart) >>= _) _ (s.log .start)
  rw [wp_bind, wp_modify_bind, ← wp_bind]
  refine surely_bind good_back (method_fine keeps.inputStart (inv_setEnv (start_inv inv idle) _) (out.fresh idle))
    (fun err t _ => ?_) (fun _ _ fine => fine.out) fun err t before _ fine => surely_after before ?_
  · cases err with
    | some err => exact (failing _ t).1
    | none => exact (begins t).1
  · obtain ⟨_, starting⟩ := fine.begins rfl
    cases err with
    | some err => exact start_failed_out keeps _ fine.inv starting fine.out
    | none => exact ⟨(begins t).1, fun _ => fine.out.begin fine.inv starting⟩

/-- Every call that is not the output's keeps the contract. -/
theorem perform_leads (c : Call) (apart : ∀ err, c ≠ .write err) : Makes Leads Comes (perform (ends e) c) := by
  intro s
  obtain ⟨moved, back⟩ := perform_keeps (ends_settle keeps) c s
  obtain ⟨m, same, makes⟩ := perform_makes plain_later (ends_later keeps) c
  have out (good : Good (perform (ends e) c s).2) (inv : Inv s) (out : Out s) : Out (perform (ends e) c s).2 := by
    have right := calm_entry c (perform_enters (keeps_grow (ends_settle keeps)) c s) good.1
    cases c with
    | start => exact (start_out keeps inv right out).2 good
    | stop =>
      exact (failed_out keeps _ (show Event.stop.isNeutral = true from rfl) (.enter .stop nofun s) out.toBase inv
      right).2 good
    | read data err => exact (handleRead_out keeps inv out right).2 good
    | write err => exact absurd rfl (apart err)
    | eof => exact (handleEof_out keeps inv right out).2 good
  have later : Later s (perform (ends e) c s).2 := by
    rw [same]
    exact (Later.enter c apart s).trans (makes (c.enter s)).1
  have leads : Leads s (perform (ends e) c s).2 := ⟨moved, later.mixed, later.clean, out⟩
  exact ⟨leads, fun value done => ⟨leads, (back value done).settled⟩⟩

omit keeps in
private theorem input_leads (s : World (Link ι)) (new : ι) :
    Leads s (setEnv (fun l => { l with input := new }) s) ∧ Comes s (setEnv (fun l => { l with input := new }) s) := by
  obtain ⟨moved, back⟩ := env_keeps s { s.env with input := new }
  have leads : Leads s (setEnv (fun l => { l with input := new }) s) :=
    ⟨moved, id, fun _ clean => clean, fun _ _ out => out.input new⟩
  exact ⟨leads, leads, back.settled⟩

omit keeps in
private theorem other_leads (s : World (Link ι)) (data : Data) :
    Leads s (setEnv (Link.other data) s) ∧ Comes s (setEnv (Link.other data) s) := by
  obtain ⟨moved, back⟩ := env_keeps s (Link.other data s.env)
  have mixed (before : s.env.mixed = true) : (setEnv (Link.other data) s).env.mixed = true := by
    change (s.env.mixed || s.env.firstWreq.isSome) = true
    rw [before]
    rfl
  have leads : Leads s (setEnv (Link.other data) s) :=
    ⟨moved, mixed, fun _ clean => clean, fun good _ out => out.other data good.2⟩
  exact ⟨leads, leads, back.settled⟩

theorem move_leads (move : Move e s t) : Leads s t := by
  cases move with
  | input new => exact (input_leads s new).1
  | other data => exact (other_leads s data).1
  | call c apart => exact (perform_leads keeps c apart s).1

private theorem return_comes (back : Return e s t) : Comes s t := by
  cases back with
  | input new => exact (input_leads s new).2
  | other data => exact (other_leads s data).2
  | call c apart done => exact (perform_leads keeps c apart s).2 () done

omit keeps in
theorem tied_leads (tied : Tied e) : e.Keeps Leads Comes := by
  induction tied with
  | spent => exact Ends.spent_keeps
  | @layer e inner _ methods ih =>
    refine methods.mono (fun s t path => ?_) fun s t path => ?_
    · rw [← reflTransGen_eq_self (r := Leads)]
      exact ReflTransGen.mono (r := Move inner) (p := Leads) (fun s t move => move_leads ih move) s t path
    · rw [← reflTransGen_eq_self (r := Comes)]
      exact ReflTransGen.mono (r := Return inner) (p := Comes) (fun s t back => return_comes ih back) s t path

end

end UniEvent.Streamer.ToStream
