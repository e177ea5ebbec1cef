import UniEvent.Proofs.StreamerStream

/-! # A streamer into a stream counts its own writes

Once the first chunk of a run is reported, `StreamOutput` takes every write of the stream for one of its own. The counts
are right if other code does not write to the stream after the first chunk of a run and before its end.
-/

namespace UniEvent.Streamer.ToStream

open Program Program.Exec Relation

variable {ι : Type} {e : Ends (Link ι)} {s t : World (Link ι)} {rest : List Wreq} {wreq : Wreq}

/-! ### Reports of the stream -/

/-- The calls come at the right time, and other code has not written between the chunks. -/
def Fair (s : World (Link ι)) : Prop := Along CallAt s.trace ∧ s.env.mixed = false

structure Kept (s : World (Link ι)) : Prop where
  clean : Clean s
  inv : Inv s
  out : Out s

/-- Wherever a turn leads. -/
structure Reaches (s t : World (Link ι)) : Prop where
  trace : s.trace <:+ t.trace
  mixed : s.env.mixed = true → t.env.mixed = true
  kept : Fair t → Kept s → Kept t

theorem Leads.reaches (leads : Leads s t) : Reaches s t := by
  refine ⟨leads.grows.trace, leads.mixed, fun fair kept => ?_⟩
  have clean := leads.clean fair.1 kept.clean
  exact ⟨clean, leads.inv clean kept.inv, leads.out ⟨clean, fair.2⟩ kept.inv kept.out⟩

/-- A write in front that is not a chunk is one of the old ones. -/
private theorem Out.foreign_front (out : Out s) (queue : s.env.queue = wreq :: rest) (foreign : wreq.own = false)
    (runs : phase s.trace = .running ∨ phase s.trace = .stopping) :
    ∃ old chunks, Shape s.env (wreq :: old) chunks ∧ rest = old ++ chunks := by
  obtain ⟨old, chunks, shape⟩ := out.shape runs
  have split := queue.symm.trans shape.queue
  cases old with
  | nil => simp [shape.owns wreq (by rw [← show wreq :: rest = chunks from split]; exact List.mem_cons_self)] at foreign
  | cons first old =>
    obtain ⟨rfl, rfl⟩ := List.cons.inj split
    exact ⟨old, chunks, shape, rfl⟩

/-- A write that is not a chunk is taken from the queue. -/
theorem Out.pop_other (out : Out s) (err : Option Err) (queue : s.env.queue = wreq :: rest)
    (foreign : wreq.own = false) : Out (setEnv (Link.pop wreq rest err) s) := by
  have same : (Link.pop wreq rest err s.env).completed = s.env.completed := by
    simp only [Link.pop, foreign, Bool.false_eq_true, false_and, if_false, Nat.add_zero]
  have later (other : Wreq) (member : other ∈ rest) : other ∈ s.env.queue := by
    rw [queue]
    exact List.mem_cons_of_mem _ member
  refine ⟨{ out with
    ids := fun other member => out.ids other (later other member),
    completed := same.trans out.completed, silent := fun rests => ?_, shape := fun runs => ?_ }, fun running => ?_⟩
  · obtain ⟨listening, firstWreq, idle, none⟩ := out.silent rests
    exact ⟨listening, firstWreq, idle, fun other member => none other (later other member)⟩
  · obtain ⟨old, chunks, shape, rfl⟩ := out.foreign_front queue foreign runs
    refine ⟨old, chunks, rfl, fun other member => shape.others other (List.mem_cons_of_mem _ member), shape.owns, ?_⟩
    rcases shape.first with ⟨_, empty, _⟩ | waits
    · cases empty
    · exact .inr waits
  · change s.env.handed = (Link.pop wreq rest err s.env).completed + rest.countP _
    rw [same, out.count running, queue, List.countP_cons_of_neg (by rw [foreign]; exact Bool.false_ne_true)]

theorem runs_of_busy {here : Phase} (busy : ¬ (here = .idle ∨ here = .starting)) :
    here = .running ∨ here = .stopping := by
  cases here with
  | running => exact .inl rfl
  | stopping => exact .inr rfl
  | idle => exact absurd (.inl rfl) busy
  | starting => exact absurd (.inr rfl) busy

/-- The oldest chunk. -/
theorem Out.chunk (out : Out s) (queue : s.env.queue = wreq :: rest) (own : wreq.own = true) :
    (phase s.trace = .running ∨ phase s.trace = .stopping) ∧
      (∀ other ∈ rest, other.own = true) ∧ s.env.firstWreq ≠ none ∧
        (s.env.handleWriteStarted = true ∨ s.env.firstWreq = some wreq.id) := by
  have among : wreq ∈ s.env.queue := by
    rw [queue]
    exact List.mem_cons_self
  have runs : phase s.trace = .running ∨ phase s.trace = .stopping := by
    refine runs_of_busy fun rests => ?_
    have foreign := (out.silent rests).queue wreq among
    rw [own] at foreign
    cases foreign
  obtain ⟨old, chunks, shape⟩ := out.shape runs
  have split := queue.symm.trans shape.queue
  cases old with
  | cons first old =>
    obtain ⟨rfl, -⟩ := List.cons.inj split
    have foreign := (shape.others wreq List.mem_cons_self).1
    rw [own] at foreign
    cases foreign
  | nil =>
    have same : wreq :: rest = chunks := split
    subst same
    refine ⟨runs, fun other member => shape.owns other (List.mem_cons_of_mem _ member), ?_⟩
    rcases shape.first with ⟨going, _, known⟩ | ⟨_, known⟩
    · exact ⟨known, .inl going⟩
    · exact ⟨by rw [known]; exact nofun, .inr known⟩

/-- A write that is not a chunk is not taken for one. -/
theorem Out.foreign (out : Out s) (queue : s.env.queue = wreq :: rest) (foreign : wreq.own = false)
    (listening : s.env.listening = true) : s.env.handleWriteStarted = false ∧ s.env.firstWreq ≠ some wreq.id := by
  have runs : phase s.trace = .running ∨ phase s.trace = .stopping := by
    refine runs_of_busy fun rests => ?_
    have silent := (out.silent rests).listening
    rw [listening] at silent
    cases silent
  obtain ⟨old, chunks, shape, -⟩ := out.foreign_front queue foreign runs
  refine ⟨?_, (shape.others wreq List.mem_cons_self).2⟩
  rcases shape.first with ⟨_, empty, _⟩ | ⟨waits, _⟩
  · cases empty
  · exact waits

/-- The oldest chunk is taken from the queue, and the output takes every write for its own from now on. -/
def take (wreq : Wreq) (rest : List Wreq) (err : Option Err) (s : World (Link ι)) : World (Link ι) :=
  setEnv (fun l => { l.pop wreq rest err with handleWriteStarted := true }) s

theorem Out.take_base (out : Out s) (err : Err) (queue : s.env.queue = wreq :: rest) (own : wreq.own = true) :
    Base (take wreq rest (some err) s) := by
  obtain ⟨runs, owns, known, -⟩ := out.chunk queue own
  have shape : Shape (take wreq rest (some err) s).env [] rest := ⟨rfl, nofun, owns, .inl ⟨rfl, rfl, known⟩⟩
  refine { out with
    ids := fun other member => out.ids other ?_, completed := ?_, silent := fun rests => ?_,
    shape := fun _ => ⟨_, _, shape⟩ }
  · rw [queue]
    exact List.mem_cons_of_mem _ member
  · simp only [take, setEnv, Link.pop, reduceCtorEq, and_false, if_false, Nat.add_zero]
    exact out.completed
  · have here : phase s.trace = .idle ∨ phase s.trace = .starting := rests
    rcases runs with runs | runs
    · rw [runs] at here
      rcases here with idle | starting
      · cases idle
      · cases starting
    · rw [runs] at here
      rcases here with idle | starting
      · cases idle
      · cases starting

theorem Out.take_ack (out : Out s) (queue : s.env.queue = wreq :: rest) (own : wreq.own = true)
    (running : phase s.trace = .running) : Out ((take wreq rest none s).onWrite none) := by
  obtain ⟨_, owns, known, -⟩ := out.chunk queue own
  have running' : phase ((take wreq rest none s).onWrite none).trace = .running := running
  have completed : (take wreq rest none s).env.completed = s.env.completed + 1 := by
    simp only [take, setEnv, Link.pop, own, and_self, if_true]
  have shape : Shape (take wreq rest none s).env [] rest := ⟨rfl, nofun, owns, .inl ⟨rfl, rfl, known⟩⟩
  refine ⟨⟨fun other member => out.ids other ?_, out.prevLst, out.handed, ?_, fun rests => ?_, out.listening,
    fun _ => ⟨_, _, shape⟩, fun stopping => ?_, out.reports⟩, fun _ => ?_⟩
  · rw [queue]
    exact List.mem_cons_of_mem _ member
  · exact completed.trans (congrArg (· + 1) out.completed)
  · rw [running'] at rests
    rcases rests with idle | starting
    · cases idle
    · cases starting
  · rw [running'] at stopping
    cases stopping
  · change s.env.handed = (take wreq rest none s).env.completed + rest.countP (·.own)
    rw [completed, out.count running, queue, List.countP_cons_of_pos (p := fun wreq : Wreq => wreq.own) own]
    omega

/-- The output acknowledges a chunk, or reports that it has failed. -/
theorem take_reaches (keeps : e.Keeps Leads Comes) (err : Option Err) (queue : s.env.queue = wreq :: rest)
    (own : Out s → wreq.own = true) : Reaches s (handleWrite (ends e) err (take wreq rest err s)).2 := by
  let m := take wreq rest err s
  obtain ⟨moved, -⟩ := perform_keeps (ends_settle keeps) (.write err) m
  obtain ⟨_, same, makes⟩ := perform_makes plain_later (ends_later keeps) (.write err)
  have later : Later ((Call.write err).enter m) (handleWrite (ends e) err m).2 := by
    change Later _ (perform (ends e) (.write err) m).2
    rw [same]
    exact (makes _).1
  refine ⟨moved.grows.trace, fun mixed => later.mixed mixed, fun fair kept => ?_⟩
  have own := own kept.out
  have inv : Inv m := inv_setEnv kept.inv _
  have entered := fair.1.earlier later.grows.trace
  rw [enter_trace] at entered
  have calm : phase s.trace ≠ .stopping := entered.1
  have running : phase s.trace = .running := (kept.out.chunk queue own).1.resolve_right calm
  cases err with
  | some err =>
    have base := kept.out.take_base err queue own
    have neutral : (Event.write (some err)).isNeutral = true := rfl
    have alike := Alike.log m neutral
    have clean : Clean (handleWrite (ends e) (some err) m).2 := later.clean fair.1 ⟨calm, kept.clean⟩
    refine ⟨clean, moved.inv clean inv, ?_⟩
    have finished := finish_failed_out keeps (nestError .writeError err) (base.log neutral) (inv.alike alike) calm
    exact finished.2 ⟨clean, fair.2⟩
  | none =>
    have due : acks s.trace < reads s.trace := by
      rw [← kept.out.completed, ← kept.out.handed, kept.out.count running, queue,
        List.countP_cons_of_pos (p := fun wreq : Wreq => wreq.own) own]
      omega
    have clean : Clean (handleWrite (ends e) none m).2 := later.clean fair.1 ⟨⟨running, due⟩, kept.clean⟩
    refine ⟨clean, moved.inv clean inv, ?_⟩
    exact (handleWrite_out keeps inv ⟨running, due⟩ (kept.out.take_ack queue own running)).2 ⟨clean, fair.2⟩

/-- The output does not hear of a write, or does not take it for its own. -/
theorem pop_reaches (err : Option Err) (queue : s.env.queue = wreq :: rest) (foreign : Out s → wreq.own = false) :
    Reaches s (setEnv (Link.pop wreq rest err) s) :=
  ⟨List.suffix_refl _, id, fun _ kept =>
    ⟨kept.clean, inv_setEnv kept.inv _, kept.out.pop_other err queue (foreign kept.out)⟩⟩

theorem Out.own_iff (out : Out s) (queue : s.env.queue = wreq :: rest) :
    wreq.own = true ↔ s.env.listening = true ∧ (s.env.handleWriteStarted = true ∨ s.env.firstWreq = some wreq.id) := by
  constructor
  · intro own
    obtain ⟨runs, -, -, taken⟩ := out.chunk queue own
    exact ⟨out.listening runs, taken⟩
  · rintro ⟨listening, taken⟩
    cases own : wreq.own with
    | true => rfl
    | false =>
      obtain ⟨waits, other⟩ := out.foreign queue own listening
      rcases taken with going | first
      · rw [waits] at going
        cases going
      · exact absurd first other

private theorem report_reaches (keeps : e.Keeps Leads Comes) (err : Option Err) (s : World (Link ι)) :
    Reaches s (report e err s).2 := by
  change wp (report e err) (fun _ t => Reaches s t) s
  simp only [report]
  rw [wp_get_bind]
  cases queue : s.env.queue with
  | nil => exact ⟨List.suffix_refl _, id, fun _ kept => kept⟩
  | cons wreq rest =>
    have ignored (apart :
      ¬ (s.env.listening = true ∧ (s.env.handleWriteStarted = true ∨ s.env.firstWreq = some wreq.id))) :
        Reaches s (setEnv (Link.pop wreq rest err) s) :=
      pop_reaches err queue fun out => Bool.eq_false_iff.mpr fun own => apart ((out.own_iff queue).mp own)
    change wp (modify _ >>= _) _ _
    rw [wp_modify_bind, wp_when]
    refine ⟨fun listening => ?_, fun deaf => ignored fun both => deaf both.1⟩
    simp only [onWrite]
    rw [wp_get_bind]
    split
    · rename_i going
      have same : setEnv (Link.pop wreq rest err) s = take wreq rest err s := by
        have started : s.env.handleWriteStarted = true := going
        simp only [take, setEnv, Link.pop, ← started]
      rw [same]
      exact take_reaches keeps err queue fun out => (out.own_iff queue).mpr ⟨listening, .inl going⟩
    · rename_i waits
      rw [wp_when]
      refine ⟨fun first => ?_, fun other => ignored fun both => both.2.elim waits other⟩
      rw [wp_modify_bind]
      exact take_reaches keeps err queue fun out => (out.own_iff queue).mpr ⟨listening, .inr first⟩

/-! ### Runs -/

theorem Turn.reaches (turn : Turn s t) : Reaches s t := by
  cases turn with
  | move tied move => exact (move_leads (tied_leads tied) move).reaches
  | report tied _ err => exact report_reaches (tied_leads tied) err s

theorem initial_kept (maxBuf : ℕ) (input : ι) : Kept (initial maxBuf input) := by
  refine ⟨trivial, initial_inv maxBuf _,
    ⟨⟨nofun, rfl, rfl, rfl, fun _ => ⟨rfl, rfl, rfl, nofun⟩, ?_, ?_, nofun, nofun⟩, nofun⟩⟩
  · rintro (running | stopping)
    · cases running
    · cases stopping
  · rintro (running | stopping)
    · cases running
    · cases stopping

private theorem turns_kept {maxBuf : ℕ} {input : ι} (path : ReflTransGen Turn (initial maxBuf input) s)
    (fair : Fair s) : Kept s := by
  induction path with
  | refl => exact initial_kept maxBuf input
  | @tail m t _ turn ih =>
    have reaches := turn.reaches
    have earlier : Fair m := by
      refine ⟨fair.1.earlier reaches.trace, Bool.eq_false_iff.mpr fun mixed => ?_⟩
      have still := reaches.mixed mixed
      rw [fair.2] at still
      cases still
    exact reaches.kept fair (ih earlier)

/-- A run ends well only after the end of its input. -/
def EndAt : Event → List Event → Prop
  | .finish none, before => ended before = true
  | _, _ => True

private theorem end_of_finish {trace : List Event} (finishes : Along FinishAt trace) : Along EndAt trace := by
  refine along_iff.mpr fun event before stage => ?_
  cases event with
  | finish err =>
    cases err with
    | none => exact ((along_iff.mp finishes _ _ stage).2.mp rfl).1
    | some err => trivial
  | _ => trivial

/-- If the calls come at the right time and other code does not write to the stream after the first chunk of a run and
before its end, then `nwrite` is the number of chunks that were written, and a run ends well only after all of them
were and the end of the input was seen. -/
theorem turns_own {maxBuf : ℕ} {input : ι} (path : ReflTransGen Turn (initial maxBuf input) s) (fair : Fair s) :
    s.self.nwrite ≤ s.self.nread ∧
      (s.self.started = true → s.self.nwrite = s.env.completed ∧ s.self.nread = s.env.handed) ∧
      (∀ report ∈ s.env.reports, report.status = none → report.completed = report.handed) ∧ Along EndAt s.trace := by
  obtain ⟨_, inv, out⟩ := turns_kept path fair
  have counts (here : phase s.trace = .running ∨ phase s.trace = .stopping) :
      s.self.nread = reads s.trace ∧ s.self.nwrite = acks s.trace ∧ acks s.trace ≤ reads s.trace := by
    rcases here with running | stopping
    · obtain ⟨nread, nwrite, bound, -⟩ := inv.counts running
      exact ⟨nread, nwrite, bound⟩
    · exact out.held stopping
  refine ⟨?_, fun started => ?_, out.reports, end_of_finish inv.finishes⟩
  · by_cases rests : phase s.trace = .idle ∨ phase s.trace = .starting
    · rw [(inv.resting rests).nwrite]
      exact Nat.zero_le _
    · obtain ⟨nread, nwrite, bound⟩ := counts (runs_of_busy rests)
      rw [nread, nwrite]
      exact bound
  · have busy : ¬ (phase s.trace = .idle ∨ phase s.trace = .starting) := by
      intro rests
      rw [(inv.resting rests).started] at started
      cases started
    obtain ⟨nread, nwrite, -⟩ := counts (runs_of_busy busy)
    exact ⟨nwrite.trans out.completed.symm, nread.trans out.handed.symm⟩

/-- An input that does nothing by itself. -/
def still : Ends (Link Unit) where
  inputStart := pure none
  inputStop := pure ()
  startReading := pure none
  stopReading := pure ()
  outputStart := pure none
  outputStop := pure ()
  write _ := pure none
  writeQueueSize _ := 0
  finishEvent _ := pure ()

theorem still_tied : Tied still :=
  .layer .spent ⟨.pure _, .pure _, .pure _, .pure _, .pure _, .pure _, fun _ => .pure _, fun _ => .pure _⟩

inductive Act where
  | start
  | read (data : Data)
  | eof
  | other (data : Data)
  | report (err : Option Err)

def act : Act → World (Link Unit) → World (Link Unit)
  | .start, s => (perform (ends still) .start s).2
  | .read data, s => (perform (ends still) (.read data none) s).2
  | .eof, s => (perform (ends still) .eof s).2
  | .other data, s => setEnv (Link.other data) s
  | .report err, s => (report still err s).2

def run (acts : List Act) (s : World (Link Unit)) : World (Link Unit) := acts.foldl (fun s a => act a s) s

private theorem act_turn (a : Act) (s : World (Link Unit)) : Turn s (act a s) := by
  cases a with
  | start => exact .move still_tied (.call s .start nofun)
  | read data => exact .move still_tied (.call s (.read data none) nofun)
  | eof => exact .move still_tied (.call s .eof nofun)
  | other data => exact .move still_tied (.other s data)
  | report err => exact .report still_tied s err

theorem run_turns (acts : List Act) (s : World (Link Unit)) : ReflTransGen Turn s (run acts s) := by
  induction acts generalizing s with
  | nil => exact .refl
  | cons a acts ih => exact .head (act_turn a s) (ih _)

/-- Other code writes before the first chunk and after the end. -/
def apartActs : List Act :=
  [.other [9], .start, .read [1], .read [2], .report none, .report none, .eof, .report none, .other [9], .report none]

theorem apartActs_own : let s := run apartActs (initial 100 ())
    Fair s ∧ s.env.reports = [⟨none, 2, 2⟩] ∧ s.self.nwrite ≤ s.self.nread := by
  intro s
  -- named, so that the final state is not computed where it need not be
  generalize same : s = t
  have fair : Fair t := by
    rw [← same]
    exact ⟨by decide +kernel, by decide +kernel⟩
  have path : ReflTransGen Turn (initial 100 ()) t := by
    rw [← same]
    exact run_turns apartActs _
  refine ⟨fair, ?_, (turns_own path fair).1⟩
  rw [← same]
  decide +kernel

/-- Other code writes between two chunks. -/
def crossedActs : List Act := [.start, .read [1], .other [9], .read [2], .report none, .report none]

/-- The write of other code is counted, and the streamer finishes before its second chunk is written. -/
theorem crossedActs_own : let s := run crossedActs (initial 100 ())
    (s.self.nwrite, s.env.completed) = (2, 1) ∧ (act .eof s).env.reports = [⟨none, 2, 1⟩] ∧
      (act .eof s).env.queue.map Wreq.data = [[2]] := by
  decide +kernel

end UniEvent.Streamer.ToStream
