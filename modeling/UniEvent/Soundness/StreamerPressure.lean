import Mathlib.Algebra.BigOperators.Group.List.Basic
import UniEvent.Proofs.StreamerFiles
import UniEvent.Proofs.StreamerPhase

/-! # Back-pressure

The input is paused when the write queue has reached `max_buf`, and resumed when it is down to `thr_buf`. A chunk comes
only while the input is not paused, so the queue was below `max_buf` before the last chunk. If `inread` is false there
is something in the queue, and the acknowledgement that empties the queue resumes the input.

Acknowledgements may come inside `output->write`, and chunks inside `input->start_reading`. A chunk that comes there and
pauses the input again leaves `inread` true, and the input is never resumed.
-/

namespace UniEvent.Streamer

open Program Program.Exec Relation

variable {ε : Type} {e : Ends ε} {s t : World ε} {P : World ε → Prop} {m : Exec (World ε) α} {event : Event} {α : Type}

/-- The sizes of the chunks that are not acknowledged, oldest first. -/
def pending : List Event → List ℕ
  | [] => []
  | .read data none :: before => pending before ++ [data.length]
  | .write none :: before => (pending before).tail
  | _ :: before => pending before

/-- The size of the last chunk. -/
def lastRead : List Event → ℕ
  | [] => 0
  | .read data none :: _ => data.length
  | _ :: before => lastRead before

/-- The input was not told to stop reading. -/
def reading : List Event → Bool
  | [] => true
  | .pause :: _ => false
  | .resume :: _ => true
  | _ :: before => reading before

/-- The calls of the streamer to its ends that have not returned. -/
structure Nesting where
  stops : ℕ := 0
  writes : ℕ := 0
  pauses : ℕ := 0
  resumes : ℕ := 0
deriving DecidableEq, Repr

def nesting : List Event → Nesting
  | [] => {}
  | .stopping :: before => { nesting before with stops := (nesting before).stops + 1 }
  | .finish none :: before => { nesting before with stops := (nesting before).stops - 1 }
  | .read _ none :: before => { nesting before with writes := (nesting before).writes + 1 }
  | .written _ :: before => { nesting before with writes := (nesting before).writes - 1 }
  | .pause :: before => { nesting before with pauses := (nesting before).pauses + 1 }
  | .paused :: before => { nesting before with pauses := (nesting before).pauses - 1 }
  | .resume :: before => { nesting before with resumes := (nesting before).resumes + 1 }
  | .resumed _ :: before => { nesting before with resumes := (nesting before).resumes - 1 }
  | _ :: before => nesting before

/-- The two ends do what they should: a chunk comes only while the streamer runs and the input is not paused, not while
the input is being stopped and not inside `output->write`; an acknowledgement is for a chunk, and does not come inside
`stop_reading`; the size of the queue is that of the chunks not acknowledged. Nothing fails. -/
def FairAt : Event → List Event → Prop
  | .read _ none, before => phase before = .running ∧ reading before = true ∧ (nesting before).stops = 0 ∧
    (nesting before).writes = 0
  | .write none, before => pending before ≠ [] ∧ (nesting before).pauses = 0
  | .size bytes, before => bytes = (pending before).sum
  | .written err, _ | .resumed err, _ => err = none
  | .finish err, _ => err = none
  | _, _ => True

instance : ∀ (event : Event) (before : List Event), Decidable (FairAt event before)
  | .read _ none, _ => inferInstanceAs (Decidable (_ ∧ _ ∧ _ ∧ _))
  | .write none, _ => inferInstanceAs (Decidable (_ ∧ _))
  | .size bytes, _ => inferInstanceAs (Decidable (bytes = _))
  | .written err, _ | .resumed err, _ => inferInstanceAs (Decidable (err = none))
  | .finish err, _ => inferInstanceAs (Decidable (err = none))
  | .start, _ | .started, _ | .stop, _ | .read _ (some _), _ | .write (some _), _ | .eof, _ | .pause, _ | .paused, _
  | .resume, _ | .stopping, _ => .isTrue trivial

abbrev Fair (s : World ε) : Prop := Along FairAt s.trace

/-- The input is not paused from inside `start_reading`, and is not paused when the streamer starts. -/
def SteadyAt : Event → List Event → Prop
  | .pause, before => (nesting before).resumes = 0
  | .started, before => reading before = true
  | _, _ => True

instance (event : Event) (before : List Event) : Decidable (SteadyAt event before) := by
  apply Event.casesOn (motive := fun event => Decidable (SteadyAt event before)) <;> intros <;>
    unfold SteadyAt <;> infer_instance

abbrev Steady (s : World ε) : Prop := Along SteadyAt s.trace

/-- An input that was told to stop is one that `inread` tells of. -/
structure Told (s : World ε) : Prop where
  shut : s.self.started = true → reading s.trace = false → s.self.inread = false ∨ (nesting s.trace).pauses ≠ 0
  resumed : (nesting s.trace).resumes ≠ 0 → reading s.trace = true

theorem fair_back (s t : World ε) (grows : Grows s t) (fair : Fair t) : Fair s := fair.earlier grows.trace

/-- What holds wherever an end may call the streamer. -/
structure Balance (s : World ε) : Prop where
  count : s.self.nread = s.self.nwrite + (pending s.trace).length
  bound : s.self.maxBuf ≠ 0 → (pending s.trace).sum < s.self.maxBuf + lastRead s.trace
  shut : s.self.inread = false → reading s.trace = true → (nesting s.trace).resumes ≠ 0
  thr : s.self.maxBuf ≠ 0 → s.self.thrBuf < s.self.maxBuf
  rest : s.self.started = false → pending s.trace = [] ∧ s.self.inread = true
  live : phase s.trace = .running → s.self.started = true
  told : Steady s → Told s

/-- An input that is paused has something in the queue. -/
def Held (s : World ε) : Prop :=
  s.self.inread = false → reading s.trace = false → (nesting s.trace).stops = 0 → pending s.trace ≠ []

/-- A chunk may come only while the queue is below the limit. -/
def Low (s : World ε) : Prop :=
  s.self.maxBuf ≠ 0 → reading s.trace = true → (nesting s.trace).writes = 0 → (pending s.trace).sum < s.self.maxBuf

structure Flow (s : World ε) : Prop extends Balance s where
  held : Held s
  low : Low s

/-- Nothing can be read or acknowledged now. -/
def Quiet (s : World ε) : Prop :=
  ((nesting s.trace).stops ≠ 0 ∧ pending s.trace = []) ∨ ((nesting s.trace).pauses ≠ 0 ∧ reading s.trace = false)

/-- A call that has returned. -/
structure Kept (s t : World ε) : Prop where
  nesting : nesting t.trace = nesting s.trace
  quiet : Quiet s → pending t.trace = pending s.trace ∧ reading t.trace = reading s.trace
  flow : Flow t

structure Level (s t : World ε) : Prop where
  grows : Grows s t
  kept : Fair t → Flow s → Kept s t

theorem Quiet.kept (quiet : Quiet s) (kept : Kept s t) : Quiet t := by
  obtain ⟨pending', reading'⟩ := kept.quiet quiet
  rw [Quiet, kept.nesting, pending', reading']
  exact quiet

theorem Kept.trans {m : World ε} (first : Kept s m) (second : Kept m t) : Kept s t := by
  refine ⟨second.nesting.trans first.nesting, fun quiet => ?_, second.flow⟩
  obtain ⟨pending', reading'⟩ := first.quiet quiet
  obtain ⟨pending'', reading''⟩ := second.quiet (quiet.kept first)
  exact ⟨pending''.trans pending', reading''.trans reading'⟩

theorem Kept.refl (flow : Flow s) : Kept s s := ⟨rfl, fun _ => ⟨rfl, rfl⟩, flow⟩

instance : Std.Refl (Level (ε := ε)) := ⟨fun _ => ⟨Std.Refl.refl _, fun _ flow => .refl flow⟩⟩

instance : IsTrans (World ε) Level :=
  ⟨fun _ _ _ first second => ⟨IsTrans.trans _ _ _ first.grows second.grows, fun fair flow =>
    have before := first.kept (fair_back _ _ second.grows fair) flow
    before.trans (second.kept fair before.flow)⟩⟩

/-- If the call returns in a fair run, then to such a state. -/
abbrev Leads {α : Type} (m : Exec (World ε) α) (s : World ε) (P : World ε → Prop) : Prop :=
  wp m (Surely Grows Fair s fun o t => ∀ value, o = .done value → P t) s

theorem Leads.mono {P Q : World ε → Prop} (leads : Leads m s P) (weaker : ∀ t, P t → Q t) : Leads m s Q :=
  surely_mono leads fun _ t holds value same => weaker t (holds value same)

private theorem leads_method (makes : Makes Grows Level m) (flow : Flow s) : Leads m s (Kept s) :=
  wp_mono (makes s) fun _ _ made => ⟨made.1, fun fair value same => (made.2 value same).kept fair flow⟩

/-- A call to one of the ends, and what follows it. -/
theorem leads_call {α β : Type} {c : Exec (World ε) β} {f : β → Exec (World ε) α} (makes : Makes Grows Level c)
    (grows : ∀ v, Makes Grows Grows (f v)) (flow : Flow s) (rest : ∀ v t, Kept s t → Leads (f v) t P) :
    Leads (c >>= f) s P :=
  surely_bind fair_back (leads_method makes flow) (fun v t _ => (grows v t).1) (fun _ _ _ => nofun)
    fun v t before _ kept => surely_after before (rest v t (kept v rfl))

/-- A call of which nothing is known. -/
theorem leads_grow {α β : Type} {c : Exec (World ε) β} {f : β → Exec (World ε) α} (makes : Makes Grows Grows c)
    (grows : ∀ v, Makes Grows Grows (f v)) (rest : ∀ v t, Leads (f v) t P) : Leads (c >>= f) s P := by
  have first : wp c (Surely Grows Fair s fun _ _ => True) s := ⟨(makes s).1, fun _ => trivial⟩
  exact surely_bind fair_back first (fun v t _ => (grows v t).1) (fun _ _ _ => nofun)
    fun v t before _ _ => surely_after before (rest v t)

/-- An assignment, and what follows it. -/
theorem leads_modify {f : World ε → World ε} (step : Grows s (f s)) (grows : Makes Grows Grows m)
    (rest : Fair (f s) → Leads m (f s) P) : Leads (modify f >>= fun _ => m) s P := by
  have first : wp (modify f) (Surely Grows Fair s fun o t => o = .done () ∧ t = f s) s := ⟨step, fun _ => ⟨rfl, rfl⟩⟩
  refine surely_bind fair_back first (fun _ t _ => (grows t).1) (fun _ _ _ => nofun) ?_
  rintro _ _ before fair ⟨-, rfl⟩
  exact surely_after before (rest fair)

/-! ### Events that the balance does not depend on -/

def Event.isPlain : Event → Bool
  | .start | .started | .stop | .read _ (some _) | .write (some _) | .eof | .size _ => true
  | _ => false

private theorem plain_event (plain : event.isPlain = true) (before : List Event) :
    pending (event :: before) = pending before ∧ lastRead (event :: before) = lastRead before ∧
      reading (event :: before) = reading before ∧ nesting (event :: before) = nesting before := by
  cases event with
  | read data err =>
    cases err with
    | none => cases plain
    | some err => exact ⟨rfl, rfl, rfl, rfl⟩
  | write err =>
    cases err with
    | none => cases plain
    | some err => exact ⟨rfl, rfl, rfl, rfl⟩
  | start | started | stop | eof | size => exact ⟨rfl, rfl, rfl, rfl⟩
  | _ => cases plain

/-- The same, as far as the balance is concerned. -/
structure Even (s t : World ε) : Prop where
  trace : ∃ event, t.trace = event :: s.trace ∧ event.isPlain = true
  nread : t.self.nread = s.self.nread
  nwrite : t.self.nwrite = s.self.nwrite
  inread : t.self.inread = s.self.inread
  maxBuf : t.self.maxBuf = s.self.maxBuf
  thrBuf : t.self.thrBuf = s.self.thrBuf
  started : t.self.started = false → s.self.started = false
  live : phase t.trace = .running → t.self.started = true ∨ phase s.trace = .running
  told : Steady t → t.self.started = true → reading s.trace = false → s.self.started = true

private theorem plain_phase (plain : event.isPlain = true) (other : event ≠ .started) {before : List Event}
    (running : phase (event :: before) = .running) : phase before = .running := by
  cases event with
  | start => cases running
  | started => exact absurd rfl other
  | stop | read | write | eof | size => exact running
  | _ => cases plain

theorem Even.log (s : World ε) (plain : event.isPlain = true) (other : event ≠ .started) : Even s (s.log event) :=
  ⟨⟨event, rfl, plain⟩, rfl, rfl, rfl, rfl, rfl, id, fun running => .inr (plain_phase plain other running),
    fun _ started _ => started⟩

theorem Even.parts (even : Even s t) : pending t.trace = pending s.trace ∧ lastRead t.trace = lastRead s.trace ∧
    reading t.trace = reading s.trace ∧ nesting t.trace = nesting s.trace := by
  obtain ⟨event, trace, plain⟩ := even.trace
  rw [trace]
  exact plain_event plain _

theorem Even.balance (even : Even s t) (balance : Balance s) : Balance t := by
  obtain ⟨pending', last', reading', nesting'⟩ := even.parts
  constructor
  · rw [even.nread, even.nwrite, pending']
    exact balance.count
  · rw [even.maxBuf, pending', last']
    exact balance.bound
  · rw [even.inread, reading', nesting']
    exact balance.shut
  · rw [even.maxBuf, even.thrBuf]
    exact balance.thr
  · intro idle
    rw [pending', even.inread]
    exact balance.rest (even.started idle)
  · intro running
    rcases even.live running with started | before
    · exact started
    · by_contra idle
      have idle' := even.started (by simpa using idle)
      rw [balance.live before] at idle'
      cases idle'
  · intro steady
    obtain ⟨event, trace, _⟩ := even.trace
    have before : Steady s := steady.earlier (trace ▸ List.suffix_cons _ _)
    constructor
    · rw [reading', even.inread, nesting']
      exact fun started closed => (balance.told before).shut (even.told steady started closed) closed
    · rw [reading', nesting']
      exact (balance.told before).resumed

theorem Even.held (even : Even s t) (held : Held s) : Held t := by
  obtain ⟨pending', -, reading', nesting'⟩ := even.parts
  rw [Held, even.inread, pending', reading', nesting']
  exact held

theorem Even.low (even : Even s t) (low : Low s) : Low t := by
  obtain ⟨pending', -, reading', nesting'⟩ := even.parts
  rw [Low, even.maxBuf, pending', reading', nesting']
  exact low

theorem Even.kept (even : Even s t) (flow : Flow s) : Kept s t := by
  obtain ⟨pending', -, reading', nesting'⟩ := even.parts
  exact ⟨nesting', fun _ => ⟨pending', reading'⟩, even.balance flow.toBalance, even.held flow.held, even.low flow.low⟩

/-! ### Finishing -/

private theorem finished_flow (empty : pending s.trace = []) (balance : Balance s) : Flow (s.finished none) := by
  have empty' : pending (s.finished none).trace = [] := empty
  refine ⟨⟨?_, fun limited => ?_, nofun, balance.thr, fun _ => ⟨empty', rfl⟩, nofun, fun steady => ⟨nofun, ?_⟩⟩, nofun,
    fun limited _ _ => ?_⟩
  · rw [empty']
    rfl
  · rw [empty']
    exact Nat.lt_of_lt_of_le (Nat.pos_of_ne_zero limited) (Nat.le_add_right _ _)
  · exact (balance.told steady.2).resumed
  · rw [empty']
    exact Nat.pos_of_ne_zero limited

section

variable (keeps : e.Keeps Grows Level)

include keeps

theorem level_grows : e.Keeps Grows Grows := keeps.mono (fun _ _ move => move) fun _ _ back => back.grows

private theorem finish_leads_none (balance : Balance s) (empty : pending s.trace = []) :
    Leads (do
      modify (World.log .stopping)
      e.inputStop
      e.outputStop
      modify (World.finished none)
      e.finishEvent none) s (Kept s) := by
  have grows := level_grows keeps
  have finishing : Makes (Grows (ε := ε)) Grows (modify (World.finished none)) :=
    makes_grow fun _ => ⟨List.suffix_cons _ _, rfl, rfl⟩
  let m := s.log .stopping
  have flow : Flow m := by
    refine ⟨{ balance with live := nofun, told := fun steady => ?_ },
      fun _ _ outside => absurd outside nofun, ?_⟩
    · exact ⟨(balance.told steady.2).shut, (balance.told steady.2).resumed⟩
    intro limited _ _
    change (pending s.trace).sum < s.self.maxBuf
    rw [empty]
    exact Nat.pos_of_ne_zero limited
  have quiet : Quiet m := .inl ⟨nofun, empty⟩
  refine leads_modify (.log s _) (.bind grows.inputStop fun _ => .bind grows.outputStop fun _ => .bind finishing
    fun _ => grows.finishEvent none) fun _ => ?_
  refine leads_call keeps.inputStop (fun _ => .bind grows.outputStop fun _ => .bind finishing
    fun _ => grows.finishEvent none) flow fun _ t kept => ?_
  refine leads_call keeps.outputStop (fun _ => .bind finishing fun _ => grows.finishEvent none) kept.flow
    fun _ u kept' => ?_
  have both := kept.trans kept'
  obtain ⟨pending', reading'⟩ := both.quiet quiet
  have after : Grows u (u.finished none) := ⟨List.suffix_cons _ _, rfl, rfl⟩
  have kept : Kept s (u.finished none) := by
    refine ⟨?_, fun _ => ⟨pending', reading'⟩, finished_flow (pending'.trans empty) both.flow.toBalance⟩
    change { nesting u.trace with stops := (nesting u.trace).stops - 1 } = nesting s.trace
    rw [both.nesting]
    rfl
  refine leads_modify after (grows.finishEvent none) fun _ => ?_
  exact (leads_method (keeps.finishEvent none) kept.flow).mono fun _ later => kept.trans later

private theorem finish_none (balance : Balance s) (low : Low s) (held : s.self.started = false → Held s)
    (all : s.self.nwrite = s.self.nread) : Leads (finish e none) s (Kept s) := by
  have empty : pending s.trace = [] := by
    have count := balance.count
    apply List.eq_nil_of_length_eq_zero
    omega
  simp only [finish]
  rw [Leads, wp_get_bind, wp_when]
  constructor
  · intro _
    exact finish_leads_none keeps balance empty
  · intro idle
    exact ⟨Std.Refl.refl s, fun _ _ _ => .refl ⟨balance, held (by simpa using idle), low⟩⟩

/-- A streamer that fails is not in a fair run any more. -/
theorem finish_some (failure : Failure) : Leads (finish e (some failure)) s (fun t => t = s) := by
  have grows := level_grows keeps
  have finishing : Makes (Grows (ε := ε)) Grows (modify (World.finished (some failure))) :=
    makes_grow fun _ => ⟨List.suffix_cons _ _, rfl, rfl⟩
  have stopped (s : World ε) : Leads (do
      modify (World.finished (some failure))
      e.finishEvent (some failure)) s (fun _ => False) := by
    refine leads_modify ⟨List.suffix_cons _ _, rfl, rfl⟩ (grows.finishEvent _) fun fair => ?_
    cases (show (some failure : Option Failure) = none from fair.1)
  simp only [finish]
  rw [Leads, wp_get_bind, wp_when]
  constructor
  · intro _
    have whole : Leads (do
        modify (World.log .stopping)
        e.inputStop
        e.outputStop
        modify (World.finished (some failure))
        e.finishEvent (some failure)) s (fun _ => False) := by
      have rest : Makes (Grows (ε := ε)) Grows (do
          modify (World.finished (some failure))
          e.finishEvent (some failure)) := .bind finishing fun _ => grows.finishEvent _
      refine leads_modify (.log s _) (.bind grows.inputStop fun _ => .bind grows.outputStop fun _ => rest) fun _ => ?_
      refine leads_grow grows.inputStop (fun _ => .bind grows.outputStop fun _ => rest) fun _ t => ?_
      exact leads_grow grows.outputStop (fun _ => rest) fun _ u => stopped u
    exact whole.mono fun _ wrong => wrong.elim
  · intro _
    exact ⟨Std.Refl.refl s, fun _ _ _ => rfl⟩

/-! ### The calls -/

omit keeps in
private theorem sum_tail_le (sizes : List ℕ) : sizes.tail.sum ≤ sizes.sum := by
  cases sizes with
  | nil => exact le_rfl
  | cons size sizes => simp

omit keeps in
private theorem queueSize_leads {f : ℕ → Exec (World ε) Unit} (grows : ∀ n, Makes Grows Grows (f n))
    (rest : ∀ n, n = (pending s.trace).sum → Leads (f n) (s.log (.size n)) P) : Leads (queueSize e >>= f) s P := by
  change Leads (modify (World.log (.size (e.writeQueueSize s.env))) >>= fun _ => f (e.writeQueueSize s.env)) s P
  exact leads_modify (.log s _) (grows _) fun fair => rest _ fair.1

private theorem throttle_leads (balance : Balance s) (held : Held s) :
    Leads (throttle e) s (fun t => Flow t ∧ nesting t.trace = nesting s.trace) := by
  have grows := level_grows keeps
  have holding : Makes (Grows (ε := ε)) Grows (modify World.hold) :=
    makes_grow fun _ => ⟨List.suffix_cons _ _, rfl, rfl⟩
  simp only [throttle]
  rw [Leads, wp_get_bind, wp_when]
  constructor
  · intro limited
    refine queueSize_leads (fun n => .when (.bind (log_grows _) fun _ => .bind grows.stopReading fun _ => holding))
      fun n size => ?_
    let m := s.log (.size n)
    have even : Even s m := .log s rfl (by rintro ⟨⟩)
    rw [Leads, wp_when]
    constructor
    · intro full
      have due : pending s.trace ≠ [] := by
        intro empty
        rw [empty] at size
        rw [size] at full
        exact limited (Nat.le_zero.mp full)
      let p := m.log .pause
      have flow : Flow p := by
        have same := even.balance balance
        refine ⟨{ same with shut := (by rintro _ ⟨⟩), told := fun steady => ?_ },
          fun _ _ _ => due, (by rintro _ ⟨⟩)⟩
        exact ⟨fun _ _ => .inr (by rintro ⟨⟩), fun inside => absurd steady.1 inside⟩
      refine leads_modify (.log m _) (.bind grows.stopReading fun _ => holding) fun _ => ?_
      refine leads_call keeps.stopReading (fun _ => holding) flow fun _ t kept => ?_
      obtain ⟨pending', reading'⟩ := kept.quiet (.inr ⟨(by rintro ⟨⟩), rfl⟩)
      have due' : pending t.trace ≠ [] := by
        rw [pending']
        exact due
      have closed : reading t.trace = true → False := by
        rw [reading']
        rintro ⟨⟩
      have old := kept.flow
      refine ⟨⟨List.suffix_cons _ _, rfl, rfl⟩, fun _ _ _ => ⟨⟨{ old with
        shut := fun _ open' => ?_,
        rest := fun idle => ?_, told := fun steady => ⟨fun _ _ => .inl rfl, (old.told steady.2).resumed⟩ },
        fun _ _ _ => due', fun _ open' _ => ?_⟩, ?_⟩⟩
      · exact (closed open').elim
      · exact absurd (old.rest idle).1 due'
      · exact (closed open').elim
      · change { nesting t.trace with pauses := (nesting t.trace).pauses - 1 } = nesting s.trace
        rw [kept.nesting]
        rfl
    · intro below
      refine ⟨Std.Refl.refl m, fun _ _ _ => ⟨⟨even.balance balance, even.held held, fun _ _ _ => ?_⟩, rfl⟩⟩
      change (pending s.trace).sum < s.self.maxBuf
      omega
  · intro unlimited
    refine ⟨Std.Refl.refl s, fun _ _ _ => ⟨⟨balance, held, fun limited => absurd limited unlimited⟩, rfl⟩⟩

private theorem unthrottle_leads (balance : Balance s) (low : Low s) :
    Leads (unthrottle e) s (fun t => Flow t ∧ nesting t.trace = nesting s.trace) := by
  have grows := level_grows keeps
  have releasing : Makes (Grows (ε := ε)) Grows (modify World.release) :=
    makes_grow fun _ => ⟨List.suffix_cons _ _, rfl, rfl⟩
  have failing (rerr : Err) : Makes (Grows (ε := ε)) Grows (do
      modify (World.log (.resumed (some rerr)))
      finish e (some (nestError .readError rerr))) := .bind (log_grows _) fun _ => finish_grows grows _
  simp only [unthrottle]
  rw [Leads, wp_get_bind, wp_when]
  constructor
  · intro paused
    refine queueSize_leads (fun n => .when (.bind (log_grows _) fun _ =>
      .bind grows.startReading (.option failing releasing))) fun n size => ?_
    let m := s.log (.size n)
    have even : Even s m := .log s rfl (by rintro ⟨⟩)
    have same := even.balance balance
    rw [Leads, wp_when]
    constructor
    · intro few
      let r := m.log .resume
      have flow : Flow r := by
        refine ⟨{ same with
          shut := fun _ _ => (by rintro ⟨⟩),
          told := fun _ => ⟨fun _ => (by rintro ⟨⟩), fun _ => rfl⟩ }, fun _ => (by rintro ⟨⟩), ?_⟩
        intro limited _ _
        have below := same.thr limited
        change (pending s.trace).sum < s.self.maxBuf
        change s.self.thrBuf < s.self.maxBuf at below
        omega
      refine leads_modify (.log m _) (.bind grows.startReading (.option failing releasing)) fun _ => ?_
      refine leads_call keeps.startReading (.option failing releasing) flow fun rerr t kept => ?_
      cases rerr with
      | some rerr =>
        refine leads_modify (.log t _) (finish_grows grows _) fun fair => ?_
        cases (show (some rerr : Option Err) = none from fair.1)
      | none =>
        have old := kept.flow
        -- unless a chunk has paused the input meanwhile, it is reading now
        have told (steady : Steady t) : reading t.trace = true := by
          refine (old.told steady).resumed ?_
          rw [kept.nesting]
          rintro ⟨⟩
        refine ⟨⟨List.suffix_cons _ _, rfl, rfl⟩, fun _ _ _ => ⟨⟨{ old with
          shut := (by rintro ⟨⟩),
          rest := fun idle => ⟨(old.rest idle).1, rfl⟩,
          told := fun steady => ⟨fun _ closed => ?_, fun _ => told steady.2⟩ },
          (by rintro ⟨⟩), old.low⟩, ?_⟩⟩
        · cases closed.symm.trans (told steady.2)
        change { nesting t.trace with resumes := (nesting t.trace).resumes - 1 } = nesting s.trace
        rw [kept.nesting]
        rfl
    · intro many
      refine ⟨Std.Refl.refl m, fun _ _ _ => ⟨⟨same, fun _ _ _ empty => many ?_, even.low low⟩, rfl⟩⟩
      rw [show pending s.trace = [] from empty] at size
      rw [size]
      exact Nat.zero_le _
  · intro open'
    refine ⟨Std.Refl.refl s, fun _ _ _ => ⟨⟨balance, fun paused => absurd paused open', low⟩, rfl⟩⟩

omit keeps in
/-- Neither a chunk nor an acknowledgement comes when it is quiet. -/
theorem Quiet.no_read (quiet : Quiet s) {data : Data} (fair : FairAt (.read data none) s.trace) : False := by
  obtain ⟨_, open', outside, _⟩ := fair
  rcases quiet with ⟨inside, _⟩ | ⟨_, closed⟩
  · exact inside outside
  · rw [open'] at closed
    cases closed

omit keeps in
theorem Quiet.no_write (quiet : Quiet s) (fair : FairAt (.write none) s.trace) : False := by
  rcases quiet with ⟨_, empty⟩ | ⟨inside, _⟩
  · exact fair.1 empty
  · exact inside fair.2

omit keeps in
private theorem onRead_flow (flow : Flow s) {data : Data} (fair : FairAt (.read data none) s.trace) :
    Flow (s.onRead data none) := by
  obtain ⟨running, open', _, outside⟩ := fair
  have started := flow.live running
  refine ⟨⟨?_, fun limited => ?_, flow.shut, flow.thr, fun idle => ?_, flow.live, fun steady => ?_⟩, fun _ closed => ?_,
    fun _ _ inside => ?_⟩
  · have count := flow.count
    change s.self.nread + 1 = s.self.nwrite + (pending s.trace ++ [data.length]).length
    rw [List.length_append, List.length_singleton]
    omega
  · have low := flow.low limited open' outside
    change (pending s.trace ++ [data.length]).sum < s.self.maxBuf + data.length
    rw [List.sum_append, List.sum_singleton]
    omega
  · rw [show (s.onRead data none).self.started = s.self.started from rfl, started] at idle
    cases idle
  · exact ⟨(flow.told steady.2).shut, (flow.told steady.2).resumed⟩
  · rw [show reading (s.onRead data none).trace = reading s.trace from rfl, open'] at closed
    cases closed
  · cases inside

/-- A failure is reported. -/
theorem failed_leads (failure : Failure) (plain : event.isPlain = true) (other : event ≠ .started) (flow : Flow s) :
    Leads (do
      modify (World.log event)
      finish e (some failure)) s (Kept s) := by
  refine leads_modify (.log s _) (finish_grows (level_grows keeps) _) fun _ => (finish_some keeps failure).mono ?_
  rintro _ rfl
  exact (Even.log s plain other).kept flow

private theorem handleRead_leads (flow : Flow s) (data : Data) (err : Option Err) :
    Leads (handleRead e data err) s (Kept s) := by
  have grows := level_grows keeps
  cases err with
  | some err =>
    exact failed_leads keeps _ (show (Event.read data (some err)).isPlain = true from rfl) (by rintro ⟨⟩) flow
  | none =>
    have answer {f : Option Err → Exec (World ε) Unit}
        (stops : ∀ werr, f (some werr) = finish e (some (nestError .writeError werr)))
        (goes : f none = throttle e) (werr : Option Err) : Makes (Grows (ε := ε)) Grows (do
          modify (World.log (.written werr))
          f werr) := by
      refine .bind (log_grows _) fun _ => ?_
      cases werr with
      | some werr => exact stops werr ▸ finish_grows grows _
      | none => exact goes ▸ throttle_grows grows
    simp only [handleRead]
    refine leads_modify (enter_grows (.read data none) s) (.bind (grows.write data) (answer (fun _ => rfl) rfl))
      fun fair => ?_
    have right : FairAt (.read data none) s.trace := fair.1
    refine leads_call (keeps.write data) (answer (fun _ => rfl) rfl) (onRead_flow flow right) fun werr t kept => ?_
    let m := t.log (.written werr)
    have old := kept.flow
    have nested : nesting m.trace = nesting s.trace := by
      change { nesting t.trace with writes := (nesting t.trace).writes - 1 } = nesting s.trace
      rw [kept.nesting]
      rfl
    cases werr with
    | some werr =>
      refine leads_modify (.log t _) (finish_grows grows _) fun fair => ?_
      cases (show (some werr : Option Err) = none from fair.1)
    | none =>
      refine leads_modify (.log t _) (throttle_grows grows) fun _ => ?_
      have balance : Balance m := by
        refine { old with told := fun steady => ?_ }
        exact ⟨(old.told steady.2).shut, (old.told steady.2).resumed⟩
      refine (throttle_leads keeps balance old.held).mono fun u done => ?_
      exact ⟨done.2.trans nested, fun quiet => (quiet.no_read right).elim, done.1⟩

private theorem handleWrite_leads (flow : Flow s) (err : Option Err) : Leads (handleWrite e err) s (Kept s) := by
  have grows := level_grows keeps
  cases err with
  | some err => exact failed_leads keeps _ (show (Event.write (some err)).isPlain = true from rfl) nofun flow
  | none =>
    have answer : Makes (Grows (ε := ε)) Grows (do
        let s ← get
        if s.self.eof = true ∧ s.self.nwrite = s.self.nread then finish e none else unthrottle e) := by
      refine .get fun s => ?_
      split
      · exact finish_grows grows _
      · exact unthrottle_grows grows
    simp only [handleWrite]
    refine leads_modify (enter_grows (.write none) s) answer fun fair => ?_
    have right : FairAt (.write none) s.trace := fair.1
    have running : s.self.started ≠ false := fun idle => right.1 (flow.rest idle).1
    let m := s.onWrite none
    have shorter : (pending m.trace).sum ≤ (pending s.trace).sum := sum_tail_le _
    have balance : Balance m := by
      refine ⟨?_, fun limited => lt_of_le_of_lt shorter (flow.bound limited), flow.shut, flow.thr,
        fun idle => absurd idle running, flow.live, fun steady =>
          ⟨(flow.told steady.2).shut, (flow.told steady.2).resumed⟩⟩
      have count := flow.count
      have some' := List.length_pos_of_ne_nil right.1
      change s.self.nread = s.self.nwrite + 1 + (pending s.trace).tail.length
      rw [List.length_tail]
      omega
    have low : Low m := fun limited open' outside => lt_of_le_of_lt shorter (flow.low limited open' outside)
    have whole : Leads (do
        let s ← get
        if s.self.eof = true ∧ s.self.nwrite = s.self.nread then finish e none else unthrottle e) m
        (fun t => Flow t ∧ nesting t.trace = nesting m.trace) := by
      rw [Leads, wp_get_bind]
      split
      · rename_i all
        exact (finish_none keeps balance low (fun idle => absurd idle running) all.2).mono fun _ kept =>
          ⟨kept.flow, kept.nesting⟩
      · exact unthrottle_leads keeps balance low
    exact whole.mono fun t done => ⟨done.2, fun quiet => (quiet.no_write right).elim, done.1⟩

private theorem handleEof_leads (flow : Flow s) : Leads (handleEof e) s (Kept s) := by
  have grows := level_grows keeps
  let m := s.log .eof
  have even : Kept s m := (Even.log s (show Event.eof.isPlain = true from rfl) nofun).kept flow
  simp only [handleEof]
  refine leads_modify (.log s _) (.get fun s => ?_) fun _ => ?_
  · split
    · exact finish_grows grows _
    · exact makes_grow fun _ => ⟨List.suffix_refl _, rfl, rfl⟩
  · rw [Leads, wp_get_bind]
    split
    · rename_i all
      have old := even.flow
      exact (finish_none keeps old.toBalance old.low (fun _ => old.held) all).mono fun _ kept => even.trans kept
    · have old := even.flow
      refine ⟨⟨List.suffix_refl _, rfl, rfl⟩, fun _ _ _ => ⟨even.nesting, even.quiet, ?_⟩⟩
      refine ⟨{ old with told := fun steady => ?_ }, old.held, old.low⟩
      exact ⟨(old.told steady).shut, (old.told steady).resumed⟩

private theorem start_leads (flow : Flow s) : Leads (start e) s (Kept s) := by
  have grows := level_grows keeps
  have failing (failure : Failure) : Makes (Grows (ε := ε)) Grows (do
      modify (World.log (.finish (some failure)))
      e.finishEvent (some failure)) := .bind (log_grows _) fun _ => grows.finishEvent _
  have failed (failure : Failure) (t : World ε) : Leads (do
      modify (World.log (.finish (some failure)))
      e.finishEvent (some failure)) t (Kept s) := by
    refine leads_modify (.log t _) (grows.finishEvent _) fun fair => ?_
    cases (show (some failure : Option Failure) = none from fair.1)
  have starts : Makes (Grows (ε := ε)) Grows (modify World.begin) :=
    makes_grow fun _ => ⟨List.suffix_cons _ _, rfl, rfl⟩
  have stopping (err : Err) : Makes (Grows (ε := ε)) Grows (do
      e.inputStop
      modify (World.log (.finish (some (nestError .writeError err))))
      e.finishEvent (some (nestError .writeError err))) := .bind grows.inputStop fun _ => failing _
  simp only [start]
  have even : Kept s (s.log .start) := (Even.log s (show Event.start.isPlain = true from rfl) (by rintro ⟨⟩)).kept flow
  refine leads_modify (.log s _) (.bind grows.inputStart
    (.option (fun _ => failing _) (.bind grows.outputStart (.option stopping starts)))) fun _ => ?_
  refine leads_call keeps.inputStart (.option (fun _ => failing _) (.bind grows.outputStart (.option stopping starts)))
    even.flow fun err t kept => ?_
  cases err with
  | some err => exact failed _ t
  | none =>
    refine leads_call keeps.outputStart (.option stopping starts) kept.flow fun err u kept' => ?_
    cases err with
    | some err => exact leads_grow grows.inputStop (fun _ => failing _) fun _ v => failed _ v
    | none =>
      have begins : Even u u.begin := by
        refine ⟨⟨.started, rfl, rfl⟩, rfl, rfl, rfl, rfl, rfl, (by rintro ⟨⟩), fun _ => .inl rfl, ?_⟩
        intro steady _ closed
        cases closed.symm.trans steady.1
      exact ⟨⟨List.suffix_cons _ _, rfl, rfl⟩,
        fun _ _ _ => even.trans (kept.trans (kept'.trans (begins.kept kept'.flow)))⟩

private theorem perform_levels (c : Call) : Makes Grows Level (perform e c) := by
  intro s
  have grown := perform_grows (level_grows keeps) c s
  have leads (flow : Flow s) : Leads (perform e c) s (Kept s) := by
    cases c with
    | start => exact start_leads keeps flow
    | stop => exact failed_leads keeps _ rfl nofun flow
    | read data err => exact handleRead_leads keeps flow data err
    | write err => exact handleWrite_leads keeps flow err
    | eof => exact handleEof_leads keeps flow
  exact ⟨grown.1, fun value back => ⟨grown.1, fun fair flow => (leads flow).2 fair value back⟩⟩

end

private theorem initial_flow (maxBuf : ℕ) (env : ε) : Flow (initial maxBuf env) where
  count := rfl
  bound limited := Nat.lt_of_lt_of_le (Nat.pos_of_ne_zero limited) (Nat.le_add_right _ _)
  shut := nofun
  thr limited := by
    change maxBuf * 2 % 2 ^ 64 / 3 < maxBuf
    have limited : maxBuf ≠ 0 := limited
    have least := Nat.mod_le (maxBuf * 2) (2 ^ 64)
    omega
  rest _ := ⟨rfl, rfl⟩
  live := nofun
  told _ := ⟨nofun, nofun⟩
  held := nofun
  low limited _ _ := Nat.pos_of_ne_zero limited

private theorem level_env (s : World ε) (env : ε) : Grows s { s with env := env } ∧ Level s { s with env := env } := by
  have grows : Grows s { s with env := env } := ⟨List.suffix_refl _, rfl, rfl⟩
  exact ⟨grows, grows, fun _ flow => ⟨rfl, fun _ => ⟨rfl, rfl⟩,
    { flow with told := fun steady => ⟨(flow.told steady).shut, (flow.told steady).resumed⟩ }, flow.held, flow.low⟩⟩

/-- With two ends that do what they should, whenever no call is in progress: if reading is paused, an acknowledgement
is due, and if there is a limit, the queue is smaller than the limit and the last chunk together. An input that was told
to stop is paused in this sense, unless it was told so from inside `start_reading`, or before the streamer was started
again. -/
theorem backs_flow {maxBuf : ℕ} {env : ε} (path : ReflTransGen Back (initial maxBuf env) s) (fair : Fair s) :
    (s.self.inread = false → s.self.nwrite < s.self.nread) ∧
      (Steady s → s.self.started = true → reading s.trace = false →
        s.self.inread = false ∧ s.self.nwrite < s.self.nread) ∧
      (maxBuf ≠ 0 → (pending s.trace).sum < maxBuf + lastRead s.trace) := by
  have level : Level (initial maxBuf env) s :=
    backs_keep (M := Grows) level_env (fun _ keeps c => perform_levels keeps c) path
  have kept := level.kept fair (initial_flow maxBuf env)
  have flow := kept.flow
  have outside : nesting s.trace = {} := kept.nesting
  have limit : s.self.maxBuf = maxBuf := level.grows.maxBuf
  have due (paused : s.self.inread = false) : s.self.nwrite < s.self.nread := by
    have told : reading s.trace = false := by
      rw [← Bool.not_eq_true]
      intro told
      exact flow.shut paused told (congrArg Nesting.resumes outside)
    have due := List.length_pos_of_ne_nil (flow.held paused told (congrArg Nesting.stops outside))
    have count := flow.count
    omega
  refine ⟨due, fun steady started closed => ?_, fun limited => ?_⟩
  · rcases (flow.told steady).shut started closed with paused | inside
    · exact ⟨paused, due paused⟩
    · exact absurd (congrArg Nesting.pauses outside) inside
  · rw [← limit] at limited ⊢
    exact flow.bound limited

namespace Files

/-- Two chunks are read before the other file is open, and the second one pauses the input. -/
def pausedTurns : List Turn :=
  [{ task := .start }, { task := .execute 1 none }, { task := .complete 1 }, { task := .execute 3 none },
    { task := .complete 3 }, { task := .execute 4 none }, { task := .complete 4 }]

/-- The input is told to stop, and an acknowledgement is due. -/
theorem pausedTurns_flow :
    (pausedTurns.forM turn (initial 3 2 [1, 2, 3] none)).2.self.inread = false ∧
      (pausedTurns.forM turn (initial 3 2 [1, 2, 3] none)).2.self.nwrite <
        (pausedTurns.forM turn (initial 3 2 [1, 2, 3] none)).2.self.nread ∧
      (pending (pausedTurns.forM turn (initial 3 2 [1, 2, 3] none)).2.trace).sum <
        3 + lastRead (pausedTurns.forM turn (initial 3 2 [1, 2, 3] none)).2.trace := by
  -- named, so that the final state is not computed where it need not be
  generalize same : (pausedTurns.forM turn (initial 3 2 [1, 2, 3] none)).2 = s
  have path : ReflTransGen Back (initial 3 2 [1, 2, 3] none) s := by
    rw [← same]
    exact (turns_back pausedTurns _).2 () (by decide +kernel)
  have fair : Fair s := by
    rw [← same]
    decide +kernel
  obtain ⟨-, told, bound⟩ := backs_flow path fair
  have stopped : Steady s ∧ s.self.started = true ∧ reading s.trace = false := by
    rw [← same]
    decide +kernel
  exact ⟨(told stopped.1 stopped.2.1 stopped.2.2).1, (told stopped.1 stopped.2.1 stopped.2.2).2, bound nofun⟩

end Files

/-- Two ends that keep the bytes of the queue; `start_reading` delivers a chunk before it returns. -/
def eager : ℕ → Ends ℕ
  | 0 => .spent
  | n + 1 =>
    { inputStart := pure none
      inputStop := pure ()
      startReading := do
        handleRead (eager n) [1, 2, 3] none
        pure none
      stopReading := pure ()
      outputStart := pure none
      outputStop := pure ()
      write := fun data => do
        modify fun s => { s with env := s.env + data.length }
        pure none
      writeQueueSize := id
      finishEvent := fun _ => pure () }

private theorem eager_tied (n : ℕ) : (eager n).Tied := by
  induction n with
  | zero => exact .spent
  | succ n ih =>
    exact .layer ih
      { inputStart := .pure _
        inputStop := .pure _
        startReading := .bind (Files.call_acts (.read _ _)) fun _ => .pure _
        stopReading := .pure _
        outputStart := .pure _
        outputStop := .pure _
        write := fun _ => .bind (.modify (fun s => .single (.env s _)) fun s => .single (.env s _)) fun _ => .pure _
        finishEvent := fun _ => .pure _ }

/-- A chunk pauses the input. Its acknowledgement resumes it, and the chunk that comes then pauses it again and is
acknowledged too. -/
def eagerRun : Exec (World ℕ) Unit := do
  perform (eager 2) .start
  perform (eager 2) (.read [1, 2, 3] none)
  modify fun s => { s with env := 0 }
  perform (eager 2) (.write none)
  modify fun s => { s with env := 0 }
  perform (eager 2) (.write none)

private theorem eagerRun_acts : Files.Acts (eager 2) eagerRun := by
  have drained : Files.Acts (eager 2) (modify fun s => { s with env := 0 }) :=
    .modify (fun s => .single (.env s _)) fun s => .single (.env s _)
  exact .bind (Files.call_acts _) fun _ => .bind (Files.call_acts _) fun _ => .bind drained fun _ =>
    .bind (Files.call_acts _) fun _ => .bind drained fun _ => Files.call_acts _

/-- The two ends do what they should, the input is told to stop, and no acknowledgement is due. -/
theorem eagerRun_stalls :
    ReflTransGen Back (initial 3 0) (eagerRun (initial 3 0)).2 ∧ Fair (eagerRun (initial 3 0)).2 ∧
      (eagerRun (initial 3 0)).2.self.started = true ∧ reading (eagerRun (initial 3 0)).2.trace = false ∧
      (eagerRun (initial 3 0)).2.self.inread = true ∧
      (eagerRun (initial 3 0)).2.self.nwrite = (eagerRun (initial 3 0)).2.self.nread := by
  constructor
  · have path := (eagerRun_acts (initial 3 0)).2 () (by decide +kernel)
    exact ReflTransGen.mono (r := Return (eager 2)) (p := Back) (fun _ _ back => ⟨_, eager_tied 2, back⟩) _ _ path
  · decide +kernel

end UniEvent.Streamer
