import UniEvent.Program.Log
import UniEvent.Proofs.StreamerCalls

/-! # What the trace says about a streamer

The trace tells in which phase a streamer is, how many chunks it was given since its start, how many of them were
acknowledged, and whether the end was seen. The fields say the same as long as nobody calls the streamer while
it stops its ends, data and acknowledgements come only while it runs, and each acknowledgement is for a chunk of
this run.
-/

namespace UniEvent.Streamer

open Program Program.Exec Relation

variable {ε : Type} {e : Ends ε} {s t : World ε} {err : Option Failure}

inductive Phase where
  | idle
  /-- inside `start` -/
  | starting
  | running
  /-- inside `finish`, before `finish_event` -/
  | stopping
deriving DecidableEq, Repr

def phase : List Event → Phase
  | [] => .idle
  | .start :: _ => .starting
  | .started :: _ => .running
  | .stopping :: _ => .stopping
  | .finish _ :: _ => .idle
  | _ :: before => phase before

/-- The chunks since the start. -/
def reads : List Event → ℕ
  | [] | .start :: _ => 0
  | .read _ none :: before => reads before + 1
  | _ :: before => reads before

/-- The acknowledgements since the start. -/
def acks : List Event → ℕ
  | [] | .start :: _ => 0
  | .write none :: before => acks before + 1
  | _ :: before => acks before

/-- The end of the input was seen since the start. -/
def ended : List Event → Bool
  | [] | .start :: _ => false
  | .eof :: _ => true
  | _ :: before => ended before

/-- `finish_event` was fired since the start. -/
def fired : List Event → Bool
  | [] | .start :: _ => false
  | .finish _ :: _ => true
  | _ :: before => fired before

/-- `finish_event` is fired for the first time since the start, and with success if and only if everything was read
and acknowledged. -/
def FinishAt : Event → List Event → Prop
  | .finish err, before => fired before = false ∧ (err = none ↔ ended before = true ∧ acks before = reads before)
  | _, _ => True

/-- Nobody calls a streamer that is stopping its ends. It is started when it is idle, data and acknowledgements come
while it is running, and an acknowledgement is for a chunk. The end of the input does not come during the start. -/
def CalmAt : Event → List Event → Prop
  | .start, before => phase before = .idle
  | .read _ none, before => phase before = .running
  | .write none, before => phase before = .running ∧ acks before < reads before
  | .eof, before => phase before = .idle ∨ phase before = .running
  | .read _ (some _), before | .write (some _), before | .stop, before => phase before ≠ .stopping
  | _, _ => True

instance : ∀ (event : Event) (before : List Event), Decidable (CalmAt event before)
  | .start, before => inferInstanceAs (Decidable (phase before = .idle))
  | .read _ none, before => inferInstanceAs (Decidable (phase before = .running))
  | .write none, before => inferInstanceAs (Decidable (phase before = .running ∧ acks before < reads before))
  | .eof, before => inferInstanceAs (Decidable (phase before = .idle ∨ phase before = .running))
  | .read _ (some _), before | .write (some _), before | .stop, before =>
    inferInstanceAs (Decidable (phase before ≠ .stopping))
  | .started, _ | .written _, _ | .size _, _ | .pause, _ | .paused, _ | .resume, _ | .resumed _, _ | .stopping,
    _ | .finish _, _ =>
    .isTrue trivial

/-- When the input is paused, the streamer is still running. -/
def HoldAt : Event → List Event → Prop
  | .paused, before => phase before = .running
  | _, _ => True

instance (event : Event) (before : List Event) : Decidable (HoldAt event before) := by
  apply Event.casesOn (motive := fun event => Decidable (HoldAt event before)) <;> intros <;>
    unfold HoldAt <;> infer_instance

abbrev Clean (s : World ε) : Prop := Along CalmAt s.trace

theorem clean_back (s t : World ε) (grows : Grows s t) (clean : Clean t) : Clean s := clean.earlier grows.trace

/-- Neither inside `start` nor inside `finish`. -/
def Settled (s : World ε) : Prop := phase s.trace = .idle ∨ phase s.trace = .running

/-- The event that a call begins with. -/
def Call.event : Call → Event
  | .start => .start
  | .stop => .stop
  | .read data err => .read data err
  | .write err => .write err
  | .eof => .eof

theorem enter_trace (c : Call) (s : World ε) : (c.enter s).trace = c.event :: s.trace := by cases c <;> rfl

/-- A clean run that makes the call is right to make it. -/
theorem calm_entry (c : Call) (grows : Grows (c.enter s) t) (clean : Clean t) : CalmAt c.event s.trace := by
  have entered := clean_back _ _ grows clean
  rw [Clean, enter_trace] at entered
  exact entered.1

/-- Nobody calls while the ends are being stopped. -/
theorem calm_not_stopping {c : Call} {before : List Event} (calm : CalmAt c.event before) :
    phase before ≠ .stopping := by
  have idle (here : phase before = .idle) : phase before ≠ .stopping := by
    rw [here]
    exact nofun
  have running (here : phase before = .running) : phase before ≠ .stopping := by
    rw [here]
    exact nofun
  cases c with
  | start => exact idle calm
  | stop => exact calm
  | read data err =>
    cases err with
    | none => exact running calm
    | some err => exact calm
  | write err =>
    cases err with
    | none => exact running calm.1
    | some err => exact calm
  | eof =>
    rcases calm with here | here
    · exact idle here
    · exact running here

/-! ### Fields and trace -/

/-- The fields of a streamer that does not run. -/
structure Rests (s : World ε) : Prop where
  started : s.self.started = false
  nread : s.self.nread = 0
  nwrite : s.self.nwrite = 0
  eof : s.self.eof = false
  inread : Along HoldAt s.trace → s.self.inread = true

theorem Rests.log (rests : Rests s) (event : Event) : Rests (s.log event) :=
  { rests with inread := fun holds => rests.inread holds.2 }

/-- The fields agree with the trace, except that the end of the input may not have been noted yet. -/
structure Tally (s : World ε) : Prop where
  finishes : Along FinishAt s.trace
  resting : phase s.trace = .idle ∨ phase s.trace = .starting → Rests s
  fresh : phase s.trace = .starting → ended s.trace = false ∧ reads s.trace = 0 ∧ acks s.trace = 0
  once : phase s.trace ≠ .idle → fired s.trace = false
  busy : phase s.trace = .running → s.self.started = true
  counts : phase s.trace = .running → s.self.nread = reads s.trace ∧ s.self.nwrite = acks s.trace ∧
    acks s.trace ≤ reads s.trace ∧ (s.self.eof = true → ended s.trace = true)

/-- The fields agree with the trace, and a run goes on only as long as something is to come. -/
structure Inv (s : World ε) : Prop extends Tally s where
  going : phase s.trace = .running → ended s.trace = true → s.self.eof = true ∧ acks s.trace ≠ reads s.trace

/-- Events that say nothing about the phase and the counts. -/
def Event.isNeutral : Event → Bool
  | .stop | .read _ (some _) | .written _ | .write (some _) | .size _ | .pause | .paused | .resume | .resumed _ => true
  | _ => false

/-- The same, as far as `Tally` is concerned. -/
structure Alike (s t : World ε) : Prop where
  trace : ∃ events, t.trace = events ++ s.trace ∧ ∀ event ∈ events, event.isNeutral = true
  started : t.self.started = s.self.started
  nread : t.self.nread = s.self.nread
  nwrite : t.self.nwrite = s.self.nwrite
  eof : t.self.eof = s.self.eof
  inread : s.self.inread = true → t.self.inread = true

theorem neutral_append {events : List Event} (neutral : ∀ event ∈ events, event.isNeutral = true)
    (before : List Event) : phase (events ++ before) = phase before ∧ reads (events ++ before) = reads before ∧
      acks (events ++ before) = acks before ∧ ended (events ++ before) = ended before ∧
        fired (events ++ before) = fired before ∧ (Along FinishAt before → Along FinishAt (events ++ before)) := by
  induction events with
  | nil => exact ⟨rfl, rfl, rfl, rfl, rfl, id⟩
  | cons event events ih =>
    obtain ⟨phase', reads', acks', ended', fired', finishes⟩ :=
      ih fun e member => neutral e (List.mem_cons_of_mem _ member)
    have this := neutral event List.mem_cons_self
    cases event with
    | start | started | eof | stopping | finish => cases this
    | read data err =>
      cases err with
      | none => cases this
      | some err => exact ⟨phase', reads', acks', ended', fired', fun holds => ⟨trivial, finishes holds⟩⟩
    | write err =>
      cases err with
      | none => cases this
      | some err => exact ⟨phase', reads', acks', ended', fired', fun holds => ⟨trivial, finishes holds⟩⟩
    | _ =>
      exact ⟨phase', reads', acks', ended', fired', fun holds => ⟨trivial, finishes holds⟩⟩

theorem Alike.phase (alike : Alike s t) : phase t.trace = phase s.trace := by
  obtain ⟨events, trace, neutral⟩ := alike.trace
  rw [trace]
  exact (neutral_append neutral _).1

theorem Tally.alike (tally : Tally s) (alike : Alike s t) : Tally t := by
  obtain ⟨events, trace, neutral⟩ := alike.trace
  obtain ⟨phase', reads', acks', ended', fired', finishes⟩ := neutral_append neutral s.trace
  rw [← trace] at phase' reads' acks' ended' fired' finishes
  constructor
  · exact finishes tally.finishes
  · intro rests
    rw [phase'] at rests
    have old := tally.resting rests
    refine ⟨alike.started.trans old.started, alike.nread.trans old.nread, alike.nwrite.trans old.nwrite,
      alike.eof.trans old.eof, fun holds => alike.inread (old.inread (holds.earlier ?_))⟩
    rw [trace]
    exact List.suffix_append _ _
  · rw [phase', ended', reads', acks']
    exact tally.fresh
  · rw [phase', fired']
    exact tally.once
  · rw [phase', alike.started]
    exact tally.busy
  · rw [phase', reads', acks', ended', alike.nread, alike.nwrite, alike.eof]
    exact tally.counts

theorem Inv.alike (inv : Inv s) (alike : Alike s t) : Inv t := by
  obtain ⟨events, trace, neutral⟩ := alike.trace
  obtain ⟨phase', reads', acks', ended', -⟩ := neutral_append neutral s.trace
  rw [← trace] at phase' reads' acks' ended'
  refine ⟨inv.toTally.alike alike, ?_⟩
  rw [phase', reads', acks', ended', alike.eof]
  exact inv.going

theorem Alike.log (s : World ε) {event : Event} (neutral : event.isNeutral = true) : Alike s (s.log event) :=
  ⟨⟨[event], rfl, fun _ member => List.mem_singleton.mp member ▸ neutral⟩, rfl, rfl, rfl, rfl, id⟩

/-- A streamer that has not been started, or is not running any more, does nothing in `finish`. -/
theorem Tally.running (tally : Tally s) (calm : phase s.trace ≠ .stopping) (started : s.self.started = true) :
    phase s.trace = .running := by
  cases at' : phase s.trace with
  | running => rfl
  | stopping => exact absurd at' calm
  | idle =>
    rw [(tally.resting (.inl at')).started] at started
    cases started
  | starting =>
    rw [(tally.resting (.inr at')).started] at started
    cases started

/-! ### The contract -/

/-- Wherever a call leads. -/
structure Advance (s t : World ε) : Prop where
  grows : Grows s t
  inv : Clean t → Inv s → Inv t
  still : Clean t → phase s.trace = .stopping → t.self = s.self ∧ t.trace = s.trace
  begins : Clean t → Inv s → phase s.trace = .starting → t.self = s.self ∧ phase t.trace = .starting

/-- A call that comes back has left `start` and `finish`. -/
structure Settle (s t : World ε) : Prop extends Advance s t where
  settled : Clean t → Inv s → Settled s → Settled t

instance : Std.Refl (Advance (ε := ε)) :=
  ⟨fun _ => ⟨Std.Refl.refl _, fun _ inv => inv, fun _ _ => ⟨rfl, rfl⟩, fun _ _ at' => ⟨rfl, at'⟩⟩⟩

instance : Std.Refl (Settle (ε := ε)) := ⟨fun s => ⟨Std.Refl.refl s, fun _ _ settled => settled⟩⟩

theorem Advance.trans {m : World ε} (first : Advance s m) (second : Advance m t) : Advance s t := by
  have back (clean : Clean t) : Clean m := clean_back _ _ second.grows clean
  refine ⟨IsTrans.trans _ _ _ first.grows second.grows, fun clean inv => ?_, fun clean at' => ?_,
    fun clean inv at' => ?_⟩
  · exact second.inv clean (first.inv (back clean) inv)
  · obtain ⟨self, trace⟩ := first.still (back clean) at'
    obtain ⟨self', trace'⟩ := second.still clean (trace ▸ at')
    exact ⟨self'.trans self, trace'.trans trace⟩
  · obtain ⟨self, still⟩ := first.begins (back clean) inv at'
    obtain ⟨self', still'⟩ := second.begins clean (first.inv (back clean) inv) still
    exact ⟨self'.trans self, still'⟩

instance : IsTrans (World ε) Advance := ⟨fun _ _ _ => Advance.trans⟩

instance : IsTrans (World ε) Settle :=
  ⟨fun _ _ _ first second => ⟨first.toAdvance.trans second.toAdvance, fun clean inv settled =>
    have back := clean_back _ _ second.grows clean
    second.settled clean (first.inv back inv) (first.settled back inv settled)⟩⟩

/-- How a call ends in a clean run. -/
structure Done {α : Type} (s : World ε) (o : Outcome α) (t : World ε) : Prop where
  inv : Inv t
  still : phase s.trace = .stopping → t.self = s.self ∧ t.trace = s.trace
  begins : phase s.trace = .starting → t.self = s.self ∧ phase t.trace = .starting
  settled : ∀ value, o = .done value → Settled s → Settled t

theorem Done.of_settled {α : Type} {o : Outcome α} (settled : Settled s) (inv : Inv t)
    (back : ∀ value, o = .done value → Settled t) : Done s o t := by
  refine ⟨inv, fun at' => ?_, fun at' => ?_, fun value same _ => back value same⟩
  · rcases settled with idle | running
    · rw [at'] at idle
      cases idle
    · rw [at'] at running
      cases running
  · rcases settled with idle | running
    · rw [at'] at idle
      cases idle
    · rw [at'] at running
      cases running

theorem method_done {α : Type} {m : Exec (World ε) α} (makes : Makes Advance Settle m) (inv : Inv s) :
    wp m (Surely Grows Clean s (Done s)) s :=
  wp_mono (makes s) fun _ _ made => ⟨made.1.grows, fun clean => ⟨made.1.inv clean inv, made.1.still clean,
    made.1.begins clean inv, fun value same settled => (made.2 value same).settled clean inv settled⟩⟩

/-- A call made in a settled state, and what follows it. -/
theorem method_bind {α β : Type} {c : Exec (World ε) β} {f : β → Exec (World ε) α} (makes : Makes Advance Settle c)
    (grows : ∀ v, Makes Grows Grows (f v)) (inv : Inv s) (settled : Settled s)
    (rest : ∀ v t, Inv t → Settled t → wp (f v) (Surely Grows Clean t (Done t)) t) :
    wp (c >>= f) (Surely Grows Clean s (Done s)) s := by
  refine surely_bind clean_back (method_done makes inv) (fun v t _ => (grows v t).1) (fun why t done => ?_) ?_
  · exact .of_settled settled done.inv nofun
  · intro v t before clean done
    have settled' := done.settled v rfl settled
    refine surely_after before (surely_mono (rest v t done.inv settled') fun o u later => ?_)
    exact .of_settled settled later.inv fun value same => later.settled value same settled'

/-! ### Finishing -/

theorem stopping_inv (tally : Tally s) (running : phase s.trace = .running) : Inv (s.log .stopping) := by
  refine ⟨⟨⟨trivial, tally.finishes⟩, ?_, nofun, fun _ => ?_, nofun, nofun⟩, nofun⟩
  · rintro (idle | starting)
    · cases idle
    · cases starting
  · exact tally.once (by rw [running]; exact nofun)

theorem finished_inv (tally : Tally s) (running : phase s.trace = .running)
    (right : err = none ↔ ended s.trace = true ∧ acks s.trace = reads s.trace)
    (trace : t.trace = .stopping :: s.trace) : Inv (t.finished err) := by
  have same : (t.finished err).trace = .finish err :: .stopping :: s.trace := congrArg _ trace
  have finishes : Along FinishAt (t.finished err).trace := by
    rw [same]
    exact ⟨⟨tally.once (by rw [running]; exact nofun), right⟩, trivial, tally.finishes⟩
  exact ⟨⟨finishes, fun _ => ⟨rfl, rfl, rfl, rfl, fun _ => rfl⟩, nofun, fun busy => absurd rfl busy, nofun, nofun⟩,
    nofun⟩

section

variable (keeps : e.Keeps Advance Settle)

include keeps

theorem keeps_grow : e.Keeps Grows Grows := keeps.mono (fun _ _ move => move.grows) fun _ _ back => back.grows

private theorem finish_running (tally : Tally s) (running : phase s.trace = .running)
    (right : err = none ↔ ended s.trace = true ∧ acks s.trace = reads s.trace) : wp (do
      modify (World.log .stopping)
      e.inputStop
      e.outputStop
      modify (World.finished err)
      e.finishEvent err) (Surely Grows Clean s (Done s)) s := by
  have grows := keeps_grow keeps
  have finishing : Makes (Grows (ε := ε)) Grows (modify (World.finished err)) :=
    makes_grow fun _ => ⟨List.suffix_cons _ _, rfl, rfl⟩
  have halted {why : Halt} {u : World ε} (inv : Inv u) : Done s (.halt why : Outcome Unit) u :=
    .of_settled (.inr running) inv nofun
  rw [wp_modify_bind]
  refine surely_after (.log s .stopping) ?_
  refine surely_bind clean_back (method_done keeps.inputStop (stopping_inv tally running))
    (fun _ t _ => (Makes.bind grows.outputStop (fun _ => .bind finishing fun _ => grows.finishEvent err) t).1)
    (fun _ _ done => halted done.inv) fun _ t before _ done => surely_after before ?_
  obtain ⟨_, trace⟩ := done.still rfl
  refine surely_bind clean_back (method_done keeps.outputStop done.inv)
    (fun _ t _ => (Makes.bind finishing (fun _ => grows.finishEvent err) t).1)
    (fun _ _ done => halted done.inv) fun _ u before' _ done' => surely_after before' ?_
  obtain ⟨_, trace'⟩ := done'.still (by rw [trace]; rfl)
  rw [wp_modify_bind]
  have inv := finished_inv tally running right (trace'.trans trace)
  have after : Grows u (u.finished err) := ⟨List.suffix_cons _ _, rfl, rfl⟩
  refine surely_after after (surely_mono (method_done (keeps.finishEvent err) inv) ?_)
  exact fun o v done => .of_settled (.inr running) done.inv fun value same => done.settled value same (.inl rfl)

theorem finish_done (tally : Tally s) (calm : phase s.trace ≠ .stopping)
    (right : phase s.trace = .running → (err = none ↔ ended s.trace = true ∧ acks s.trace = reads s.trace)) :
    wp (finish e err) (Surely Grows Clean s (Done s)) s := by
  simp only [finish]
  rw [wp_get_bind, wp_when]
  constructor
  · intro started
    have running := tally.running calm started
    exact finish_running keeps tally running (right running)
  · intro idle
    have inv : Inv s := ⟨tally, fun running => absurd (tally.busy running) idle⟩
    exact ⟨Std.Refl.refl s,
      fun _ => ⟨inv, fun _ => ⟨rfl, rfl⟩, fun starting => ⟨rfl, starting⟩, fun _ _ settled => settled⟩⟩

private theorem finish_failed (failure : Failure) (inv : Inv s) (calm : phase s.trace ≠ .stopping) :
    wp (finish e (some failure)) (Surely Grows Clean s (Done s)) s :=
  finish_done keeps inv.toTally calm fun running => ⟨nofun, fun all => absurd all.2 (inv.going running all.1).2⟩

/-! ### The calls -/

omit keeps in
/-- A note that changes nothing, and what follows it. -/
theorem log_done {c : Exec (World ε) Unit} {event : Event} (neutral : event.isNeutral = true)
    (calm : phase s.trace ≠ .stopping)
    (rest : wp c (Surely Grows Clean (s.log event) (Done (s.log event))) (s.log event)) :
    wp c (Surely Grows Clean s (Done s)) (s.log event) := by
  have same := (Alike.log s neutral).phase
  refine surely_after (.log s event) (surely_mono rest fun o t done => ?_)
  refine ⟨done.inv, fun at' => absurd at' calm, fun at' => done.begins (same.trans at'), fun value back settled => ?_⟩
  refine done.settled value back ?_
  rw [Settled, same]
  exact settled

omit keeps in
/-- An assignment in a settled state, and what follows it. -/
theorem alike_done {c : Exec (World ε) Unit} (alike : Alike s t) (grows : Grows s t) (settled : Settled s)
    (rest : wp c (Surely Grows Clean t (Done t)) t) : wp c (Surely Grows Clean s (Done s)) t := by
  have settled' : Settled t := by
    rw [Settled, alike.phase]
    exact settled
  refine surely_after grows (surely_mono rest fun o u done => ?_)
  exact .of_settled settled done.inv fun value back => done.settled value back settled'

omit keeps in
theorem Settled.calm (settled : Settled s) : phase s.trace ≠ .stopping := by
  rcases settled with idle | running
  · rw [idle]
    exact nofun
  · rw [running]
    exact nofun

/-- A failure is reported. -/
theorem failed_done {event : Event} (failure : Failure) (neutral : event.isNeutral = true) (inv : Inv s)
    (calm : phase s.trace ≠ .stopping) :
    wp (finish e (some failure)) (Surely Grows Clean s (Done s)) (s.log event) := by
  have alike := Alike.log s neutral
  refine log_done neutral calm (finish_failed keeps failure (inv.alike alike) ?_)
  rw [alike.phase]
  exact calm

omit keeps in
theorem Inv.settled_alike (inv : Inv s) (settled : Settled s) (alike : Alike s t) : Inv t ∧ Settled t := by
  refine ⟨inv.alike alike, ?_⟩
  rw [Settled, alike.phase]
  exact settled

omit keeps in
theorem stays_done (inv : Inv s) (settled : Settled s) : Surely Grows Clean s (Done s) (.done ()) s :=
  ⟨Std.Refl.refl s, fun _ => .of_settled settled inv fun _ _ => settled⟩

omit keeps in
private theorem assign_done {f : World ε → World ε} (alike : Alike s (f s)) (grows : Grows s (f s)) (inv : Inv s)
    (settled : Settled s) : wp (modify f) (Surely Grows Clean s (Done s)) s := by
  obtain ⟨inv', settled'⟩ := inv.settled_alike settled alike
  exact ⟨grows, fun _ => .of_settled settled inv' fun _ _ => settled'⟩

omit keeps in
private theorem queueSize_done {f : ℕ → Exec (World ε) Unit} (inv : Inv s) (settled : Settled s)
    (rest : ∀ n t, Inv t → Settled t → wp (f n) (Surely Grows Clean t (Done t)) t) :
    wp (queueSize e >>= f) (Surely Grows Clean s (Done s)) s := by
  simp only [queueSize]
  rw [wp_bind, wp_get_bind, wp_modify_bind, wp_pure, next_done]
  have alike := Alike.log s (show (Event.size (e.writeQueueSize s.env)).isNeutral = true from rfl)
  obtain ⟨inv', settled'⟩ := inv.settled_alike settled alike
  exact alike_done alike (.log s _) settled (rest _ _ inv' settled')

omit keeps in
private theorem hold_done (inv : Inv s) (settled : Settled s) :
    wp (modify World.hold) (Surely Grows Clean s (Done s)) s := by
  have same : phase s.hold.trace = phase s.trace := rfl
  have settled' : Settled s.hold := settled
  have inv' : Inv s.hold := by
    refine ⟨{ inv with finishes := ⟨trivial, inv.finishes⟩, resting := fun rests => ?_ }, inv.going⟩
    have old := inv.resting rests
    refine { old with inread := fun holds => ?_ }
    have running : phase s.trace = .running := holds.1
    rw [same, running] at rests
    rcases rests with idle | starting
    · cases idle
    · cases starting
  exact ⟨⟨List.suffix_cons _ _, rfl, rfl⟩, fun _ => .of_settled settled inv' fun _ _ => settled'⟩

private theorem throttle_done (inv : Inv s) (settled : Settled s) :
    wp (throttle e) (Surely Grows Clean s (Done s)) s := by
  simp only [throttle]
  rw [wp_get_bind, wp_when]
  refine ⟨fun _ => queueSize_done inv settled fun n t inv settled => ?_, fun _ => stays_done inv settled⟩
  rw [wp_when]
  refine ⟨fun _ => ?_, fun _ => stays_done inv settled⟩
  rw [wp_modify_bind]
  have alike := Alike.log t (show Event.pause.isNeutral = true from rfl)
  obtain ⟨inv', settled'⟩ := inv.settled_alike settled alike
  refine alike_done alike (.log t _) settled (method_bind keeps.stopReading
    (fun _ => makes_grow fun _ => ⟨List.suffix_cons _ _, rfl, rfl⟩) inv' settled' fun _ u inv settled => ?_)
  exact hold_done inv settled

private theorem unthrottle_done (inv : Inv s) (settled : Settled s) :
    wp (unthrottle e) (Surely Grows Clean s (Done s)) s := by
  have grows := keeps_grow keeps
  simp only [unthrottle]
  rw [wp_get_bind, wp_when]
  refine ⟨fun _ => queueSize_done inv settled fun n t inv settled => ?_, fun _ => stays_done inv settled⟩
  rw [wp_when]
  refine ⟨fun _ => ?_, fun _ => stays_done inv settled⟩
  rw [wp_modify_bind]
  have alike := Alike.log t (show Event.resume.isNeutral = true from rfl)
  obtain ⟨inv', settled'⟩ := inv.settled_alike settled alike
  refine alike_done alike (.log t _) settled (method_bind keeps.startReading (fun rerr => ?_) inv' settled'
    fun rerr u inv settled => ?_)
  · cases rerr with
    | some rerr => exact .bind (log_grows _) fun _ => finish_grows grows _
    | none => exact makes_grow fun _ => ⟨List.suffix_cons _ _, rfl, rfl⟩
  · cases rerr with
    | some rerr =>
      rw [wp_modify_bind]
      exact failed_done keeps _ rfl inv settled.calm
    | none =>
      exact assign_done ⟨⟨[.resumed none], rfl, by simp [Event.isNeutral]⟩, rfl, rfl, rfl, rfl, fun _ => rfl⟩
        ⟨List.suffix_cons _ _, rfl, rfl⟩ inv settled

omit keeps in
theorem onRead_inv (data : Data) (inv : Inv s) (running : phase s.trace = .running) : Inv (s.onRead data none) := by
  obtain ⟨nread, nwrite, bound, ended'⟩ := inv.counts running
  have running' : phase (s.onRead data none).trace = .running := running
  refine ⟨⟨⟨trivial, inv.finishes⟩, ?_, ?_, inv.once, inv.busy, fun _ => ⟨?_, nwrite, ?_, ended'⟩⟩, fun _ atEnd => ?_⟩
  · rintro (idle | starting)
    · rw [running'] at idle
      cases idle
    · rw [running'] at starting
      cases starting
  · rw [running']
    exact nofun
  · exact congrArg (· + 1) nread
  · exact bound.trans (Nat.le_succ _)
  · refine ⟨(inv.going running atEnd).1, ?_⟩
    change acks s.trace ≠ reads s.trace + 1
    omega

private theorem handleRead_done {data : Data} {err : Option Err} (inv : Inv s)
    (calm : CalmAt (.read data err) s.trace) : wp (handleRead e data err) (Surely Grows Clean s (Done s)) s := by
  have grows := keeps_grow keeps
  simp only [handleRead]
  rw [wp_modify_bind]
  cases err with
  | some err => exact failed_done keeps _ (show (Event.read data (some err)).isNeutral = true from rfl) inv calm
  | none =>
    have running : phase s.trace = .running := calm
    have written (werr : Option Err) : (Event.written werr).isNeutral = true := rfl
    refine surely_after (enter_grows (.read data none) s)
      (surely_mono ?_ fun o t (done : Done (s.onRead data none) o t) =>
      .of_settled (.inr running) done.inv fun value back => done.settled value back (.inr running))
    refine method_bind (keeps.write data) (fun werr => .bind (log_grows _) fun _ => ?_) (onRead_inv data inv running)
      (.inr running) fun werr t inv settled => ?_
    · cases werr with
      | some werr => exact finish_grows grows _
      | none => exact throttle_grows grows
    · rw [wp_modify_bind]
      obtain ⟨inv', settled'⟩ := inv.settled_alike settled (Alike.log t (written _))
      cases werr with
      | some werr => exact failed_done keeps _ rfl inv settled.calm
      | none => exact alike_done (Alike.log t (written _)) (.log t _) settled (throttle_done keeps inv' settled')

omit keeps in
theorem onWrite_tally (inv : Inv s) (running : phase s.trace = .running) (due : acks s.trace < reads s.trace) :
    Tally (s.onWrite none) := by
  obtain ⟨nread, nwrite, -, ended'⟩ := inv.counts running
  have running' : phase (s.onWrite none).trace = .running := running
  refine ⟨⟨trivial, inv.finishes⟩, ?_, ?_, inv.once, inv.busy, fun _ => ⟨nread, ?_, due, ended'⟩⟩
  · rintro (idle | starting)
    · rw [running'] at idle
      cases idle
    · rw [running'] at starting
      cases starting
  · rw [running']
    exact nofun
  · exact congrArg (· + 1) nwrite

omit keeps in
/-- The last acknowledgement was not the last one to come. -/
theorem onWrite_inv (inv : Inv s) (running : phase s.trace = .running) (due : acks s.trace < reads s.trace)
    (more : ¬ (s.self.eof = true ∧ s.self.nwrite + 1 = s.self.nread)) : Inv (s.onWrite none) := by
  obtain ⟨nread, nwrite, -, -⟩ := inv.counts running
  refine ⟨onWrite_tally inv running due, fun _ atEnd => ?_⟩
  have noted : s.self.eof = true := (inv.going running atEnd).1
  refine ⟨noted, fun same => more ⟨noted, ?_⟩⟩
  rw [nwrite, nread]
  exact same

omit keeps in
/-- The end was seen, and the last acknowledgement has come. -/
theorem onWrite_right (inv : Inv s) (running : phase s.trace = .running)
    (all : s.self.eof = true ∧ s.self.nwrite + 1 = s.self.nread) :
    ended (s.onWrite none).trace = true ∧ acks (s.onWrite none).trace = reads (s.onWrite none).trace := by
  obtain ⟨nread, nwrite, -, ended'⟩ := inv.counts running
  refine ⟨ended' all.1, ?_⟩
  change acks s.trace + 1 = reads s.trace
  rw [← nwrite, ← nread]
  exact all.2

private theorem handleWrite_done {err : Option Err} (inv : Inv s) (calm : CalmAt (.write err) s.trace) :
    wp (handleWrite e err) (Surely Grows Clean s (Done s)) s := by
  simp only [handleWrite]
  rw [wp_modify_bind]
  cases err with
  | some err => exact failed_done keeps _ (show (Event.write (some err)).isNeutral = true from rfl) inv calm
  | none =>
    obtain ⟨running, due⟩ := calm
    let m := s.onWrite none
    have running' : phase m.trace = .running := running
    have whole : wp (do
        let s ← get
        if s.self.eof = true ∧ s.self.nwrite = s.self.nread then finish e none else unthrottle e)
        (Surely Grows Clean m (Done m)) m := by
      rw [wp_get_bind]
      split
      · rename_i all
        exact finish_done keeps (onWrite_tally inv running due) (by rw [running']; exact nofun)
          fun _ => ⟨fun _ => onWrite_right inv running all, fun _ => rfl⟩
      · rename_i more
        exact unthrottle_done keeps (onWrite_inv inv running due more) (.inr running')
    refine surely_after (enter_grows (.write none) s) (surely_mono whole fun o t done => ?_)
    exact .of_settled (.inr running) done.inv fun value back => done.settled value back (.inr running)

omit keeps in
theorem eof_tally (inv : Inv s) (settled : Settled s) : Tally (s.log .eof) := by
  refine ⟨⟨trivial, inv.finishes⟩, fun rests => (inv.resting rests).log _, fun starting => ?_, inv.once, inv.busy,
    fun running => ?_⟩
  · have here : phase s.trace = .starting := starting
    rcases settled with idle | running
    · rw [here] at idle
      cases idle
    · rw [here] at running
      cases running
  · obtain ⟨nread, nwrite, bound, _⟩ := inv.counts running
    exact ⟨nread, nwrite, bound, fun _ => rfl⟩

omit keeps in
/-- All chunks were acknowledged when the end is seen. -/
theorem eof_right (inv : Inv s) (all : s.self.nwrite = s.self.nread) (running : phase s.trace = .running) :
    ended (s.log .eof).trace = true ∧ acks (s.log .eof).trace = reads (s.log .eof).trace := by
  obtain ⟨nread, nwrite, -⟩ := inv.counts running
  refine ⟨rfl, ?_⟩
  change acks s.trace = reads s.trace
  rw [← nwrite, ← nread]
  exact all

private theorem handleEof_done (inv : Inv s) (settled : Settled s) :
    wp (handleEof e) (Surely Grows Clean s (Done s)) s := by
  let m := s.log .eof
  have settled' : Settled m := settled
  have tally : Tally m := eof_tally inv settled
  simp only [handleEof]
  rw [wp_modify_bind]
  have whole : wp (do
      let s ← get
      if s.self.nwrite = s.self.nread then finish e none
      else modify (World.setSelf fun self => { self with eof := true })) (Surely Grows Clean m (Done m)) m := by
    rw [wp_get_bind]
    split
    · rename_i all
      exact finish_done keeps tally settled'.calm fun running => ⟨fun _ => eof_right inv all running, fun _ => rfl⟩
    · rename_i more
      have running : phase m.trace = .running := by
        refine settled'.resolve_left fun idle => more ?_
        rw [(tally.resting (.inl idle)).nread, (tally.resting (.inl idle)).nwrite]
      obtain ⟨nread, nwrite, bound, _⟩ := tally.counts running
      have inv' : Inv (m.setSelf fun self => { self with eof := true }) := by
        refine ⟨{ tally with resting := fun resting => ?_, counts := fun _ => ?_ }, fun _ _ => ⟨rfl, ?_⟩⟩
        · rw [show phase (m.setSelf _).trace = .running from running] at resting
          rcases resting with idle | starting
          · cases idle
          · cases starting
        · exact ⟨nread, nwrite, bound, fun _ => rfl⟩
        · intro same
          refine more ?_
          rw [nwrite, nread]
          exact same
      exact ⟨⟨List.suffix_refl _, rfl, rfl⟩, fun _ => .of_settled settled' inv' fun _ _ => settled'⟩
  refine surely_after (.log s .eof) (surely_mono whole fun o t done => ?_)
  exact .of_settled settled done.inv fun value back => done.settled value back settled'

omit keeps in
theorem start_inv (inv : Inv s) (idle : phase s.trace = .idle) : Inv (s.log .start) :=
  ⟨⟨⟨trivial, inv.finishes⟩, fun _ => (inv.resting (.inl idle)).log _, fun _ => ⟨rfl, rfl, rfl⟩, fun _ => rfl, nofun,
    nofun⟩, nofun⟩

omit keeps in
private theorem begin_inv (inv : Inv s) (starting : phase s.trace = .starting) : Inv s.begin := by
  obtain ⟨-, nread, nwrite, eof, -⟩ := inv.resting (.inr starting)
  obtain ⟨ended', reads', acks'⟩ := inv.fresh starting
  refine ⟨⟨⟨trivial, inv.finishes⟩, ?_, nofun, fun _ => ?_, fun _ => rfl, fun _ => ⟨?_, ?_, ?_, ?_⟩⟩, fun _ atEnd => ?_⟩
  · rintro (idle | starting)
    · cases idle
    · cases starting
  · exact inv.once (by rw [starting]; exact nofun)
  · exact nread.trans reads'.symm
  · exact nwrite.trans acks'.symm
  · exact (acks'.trans reads'.symm).le
  · intro noted
    rw [show s.begin.self.eof = s.self.eof from rfl, eof] at noted
    cases noted
  · rw [show ended s.begin.trace = ended s.trace from rfl, ended'] at atEnd
    cases atEnd

omit keeps in
theorem failed_inv (failure : Failure) (inv : Inv s) (starting : phase s.trace = .starting) :
    Inv (s.log (.finish (some failure))) := by
  refine ⟨⟨⟨⟨inv.once ?_, nofun, fun all => ?_⟩, inv.finishes⟩, fun _ => (inv.resting (.inr starting)).log _, nofun,
    fun busy => absurd rfl busy, nofun, nofun⟩, nofun⟩
  · rw [starting]
    exact nofun
  · have atEnd := all.1
    rw [(inv.fresh starting).1] at atEnd
    cases atEnd

/-- The start has failed. -/
theorem start_failed (failure : Failure) (inv : Inv s) (starting : phase s.trace = .starting) : wp (do
      modify (World.log (.finish (some failure)))
      e.finishEvent (some failure))
        (Surely Grows Clean s fun o t => Inv t ∧ ∀ value, o = .done value → Settled t) s := by
  rw [wp_modify_bind]
  have inv' := failed_inv failure inv starting
  refine surely_after (.log s _) (surely_mono (method_done (keeps.finishEvent _) inv') fun o t done => ?_)
  exact ⟨done.inv, fun value back => done.settled value back (.inl rfl)⟩

private theorem start_done (inv : Inv s) (idle : phase s.trace = .idle) :
    wp (start e) (Surely Grows Clean s (Done s)) s := by
  have grows := keeps_grow keeps
  have failing (failure : Failure) : Makes (Grows (ε := ε)) Grows (do
      modify (World.log (.finish (some failure)))
      e.finishEvent (some failure)) := .bind (log_grows _) fun _ => grows.finishEvent _
  have starts : Makes (Grows (ε := ε)) Grows (modify World.begin) :=
    makes_grow fun _ => ⟨List.suffix_cons _ _, rfl, rfl⟩
  have halted (why : Halt) (u : World ε) {m : World ε} (done : Done m (.halt why : Outcome (Option Err)) u) :
      Inv u ∧ ∀ value, (.halt why : Outcome Unit) = .done value → Settled u := ⟨done.inv, (by rintro _ ⟨⟩)⟩
  have stopping (err : Err) : Makes (Grows (ε := ε)) Grows (do
      e.inputStop
      modify (World.log (.finish (some (nestError .writeError err))))
      e.finishEvent (some (nestError .writeError err))) := .bind grows.inputStop fun _ => failing _
  suffices whole : wp (start e) (Surely Grows Clean s fun o t => Inv t ∧ ∀ value, o = .done value → Settled t) s from
    surely_mono whole fun o t done => .of_settled (.inl idle) done.1 done.2
  simp only [start]
  rw [wp_modify_bind]
  refine surely_after (.log s .start) (surely_bind clean_back (method_done keeps.inputStart (start_inv inv idle))
    (fun err t _ => ?_) (fun why u done => halted why u done) fun err t before _ done => surely_after before ?_)
  · cases err with
    | some err => exact (failing _ t).1
    | none => exact (Makes.bind grows.outputStart (.option stopping starts) t).1
  obtain ⟨-, starting⟩ := done.begins rfl
  cases err with
  | some err => exact start_failed keeps _ done.inv starting
  | none =>
    refine surely_bind clean_back (method_done keeps.outputStart done.inv) (fun err t _ => ?_)
      (fun why u done => halted why u done) fun err u before _ done => surely_after before ?_
    · cases err with
      | some err => exact (stopping err t).1
      | none => exact (starts t).1
    obtain ⟨-, starting⟩ := done.begins starting
    cases err with
    | some err =>
      refine surely_bind clean_back (method_done keeps.inputStop done.inv) (fun _ t _ => (failing _ t).1)
        (fun why u done => ⟨done.inv, (by rintro _ ⟨⟩)⟩) fun _ v before _ done => surely_after before ?_
      exact start_failed keeps _ done.inv (done.begins starting).2
    | none => exact ⟨⟨List.suffix_cons _ _, rfl, rfl⟩, fun _ => ⟨begin_inv done.inv starting, fun _ _ => .inr rfl⟩⟩

/-- Every call keeps the contract. -/
theorem perform_keeps (c : Call) : Makes Advance Settle (perform e c) := by
  intro s
  have grows := keeps_grow keeps
  have enters := perform_enters grows c s
  have grown := (perform_grows grows c s).1
  have calm (clean : Clean (perform e c s).2) : CalmAt c.event s.trace := calm_entry c enters clean
  have done (inv : Inv s) (clean : Clean (perform e c s).2) : Done s (perform e c s).1 (perform e c s).2 := by
    have right := calm clean
    cases c with
    | start => exact (start_done keeps inv right).2 clean
    | stop => exact (failed_done keeps _ (show Event.stop.isNeutral = true from rfl) inv right).2 clean
    | read data err => exact (handleRead_done keeps inv right).2 clean
    | write err => exact (handleWrite_done keeps inv right).2 clean
    | eof => exact (handleEof_done keeps inv right).2 clean
  have advance : Advance s (perform e c s).2 :=
    ⟨grown, fun clean inv => (done inv clean).inv,
      fun clean stopping => absurd stopping (calm_not_stopping (calm clean)),
      fun clean inv => (done inv clean).begins⟩
  exact ⟨advance, fun value back => ⟨advance, fun clean inv settled => (done inv clean).settled value back settled⟩⟩

end

theorem env_keeps (s : World ε) (env : ε) : Advance s { s with env := env } ∧ Settle s { s with env := env } := by
  have same : Advance s { s with env := env } := by
    refine ⟨⟨List.suffix_refl _, rfl, rfl⟩, fun _ inv => ?_, fun _ _ => ⟨rfl, rfl⟩, fun _ _ at' => ⟨rfl, at'⟩⟩
    exact inv.alike ⟨⟨[], rfl, nofun⟩, rfl, rfl, rfl, rfl, id⟩
  exact ⟨same, same, fun _ _ settled => settled⟩

theorem initial_inv (maxBuf : ℕ) (env : ε) : Inv (initial maxBuf env) :=
  ⟨⟨trivial, fun _ => ⟨rfl, rfl, rfl, rfl, fun _ => rfl⟩, nofun, fun busy => absurd rfl busy, nofun, nofun⟩, nofun⟩

/-- The fields agree with the trace after every clean run. -/
theorem turns_inv {maxBuf : ℕ} {env : ε} (path : ReflTransGen Turn (initial maxBuf env) s) (clean : Clean s) : Inv s :=
  (turns_keep (M := Advance) (R := Settle) env_keeps (fun _ keeps c => perform_keeps keeps c) path).inv clean
    (initial_inv maxBuf env)

end UniEvent.Streamer
