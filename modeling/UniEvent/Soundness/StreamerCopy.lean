import UniEvent.Proofs.StreamerCopy

/-! # What is copied

When `finish_event` reports success after a start, the output file has the content of the input file, unless the input
was empty and the output was not opened before. An input that is empty ends before anything is written, and `finish`
cancels an open of the output that the thread pool has not begun.
-/

namespace UniEvent.Streamer.Files

open Program Program.Exec Relation

variable {source : Data} {old : Option Data} {s t : World Env} {g : Progress} {m : Exec (World Env) Unit}
  {f : World Env → World Env}

/-! ### Calls that only report failures -/

structure Quits (s t : World Env) : Prop where
  disk : t.env.disk = s.env.disk
  started : t.self.started = true → s.self.started = true
  reports : ∃ new, t.env.reports = new ++ s.env.reports ∧ ∀ r ∈ new, r.status ≠ none

instance : Std.Refl Quits := ⟨fun _ => ⟨rfl, id, [], rfl, nofun⟩⟩

instance : IsTrans (World Env) Quits := by
  refine ⟨fun s m t first second =>
    ⟨second.disk.trans first.disk, fun running => first.started (second.started running),
    ?_⟩⟩
  obtain ⟨new, same, failed⟩ := first.reports
  obtain ⟨new', same', failed'⟩ := second.reports
  refine ⟨new' ++ new, by rw [same', same, List.append_assoc], fun r among => ?_⟩
  rcases List.mem_append.mp among with among | among
  · exact failed' r among
  · exact failed r among

theorem Quits.stopped (quits : Quits s t) (stopped : s.self.started = false) : t.self.started = false := by
  rw [← Bool.not_eq_true]
  intro running
  exact Bool.false_ne_true (stopped.symm.trans (quits.started running))

/-- Neither the disk nor a report is touched. -/
theorem modify_quits (kept : ∀ s, (f s).env.disk = s.env.disk ∧ (f s).env.reports = s.env.reports ∧
    ((f s).self.started = true → s.self.started = true)) : Makes Quits Quits (modify f) := by
  have quits (s : World Env) : Quits s (f s) := ⟨(kept s).1, (kept s).2.2, [], (kept s).2.1, nofun⟩
  exact .modify quits quits

private theorem plain_quits (f : Env → Env) (kept : ∀ env, (f env).disk = env.disk ∧ (f env).reports = env.reports) :
    Makes Quits Quits (modifyEnv f) := modify_quits fun _ => ⟨(kept _).1, (kept _).2, id⟩

/-- The ends of which this holds. -/
structure Quitting (e : Ends Env) : Prop where
  inputStop : Makes Quits Quits e.inputStop
  outputStop : Makes Quits Quits e.outputStop
  finishEvent : ∀ failure, Makes Quits Quits (e.finishEvent (some failure))

/-- The calls of which this holds, and the streamer does not run when they have come back. -/
def Stops (m : Exec (World Env) Unit) : Prop := Makes Quits (fun s t => Quits s t ∧ t.self.started = false) m

theorem Stops.quits (stops : Stops m) : Makes Quits Quits m :=
  stops.mono (fun _ _ => id) fun _ _ => And.left

/-- Whatever follows does not start it. -/
theorem Stops.bind {f : Unit → Exec (World Env) Unit} (stops : Stops m) (rest : ∀ v, Makes Quits Quits (f v)) :
    Stops (m >>= f) := by
  intro s
  refine stops.seq (fun _ _ quits => ⟨quits, nofun⟩) fun v t _ back => wp_mono (rest v t) fun o u made => ?_
  have quits : Quits s u := IsTrans.trans _ _ _ back.1 made.1
  exact ⟨quits, fun value same => ⟨quits, made.1.stopped back.2⟩⟩

theorem Stops.after {c : Exec (World Env) Unit} {f : Unit → Exec (World Env) Unit} (first : Makes Quits Quits c)
    (stops : ∀ v, Stops (f v)) : Stops (c >>= f) := by
  intro s
  refine first.seq (fun _ _ quits => ⟨quits, nofun⟩) fun v t before _ => wp_mono (stops v t) fun o u made => ?_
  have quits : Quits s u := IsTrans.trans _ _ _ before made.1
  exact ⟨quits, fun value same => ⟨quits, (made.2 value same).2⟩⟩

section

variable {e : Ends Env} (quitting : Quitting e)

include quitting

theorem finish_stops (failure : Failure) : Stops (finish e (some failure)) := by
  have log : Makes Quits Quits (modify (World.log .stopping)) := modify_quits fun _ => ⟨rfl, rfl, id⟩
  have ends : Stops (modify (World.finished (some failure))) := by
    intro s
    have quits : Quits s (s.finished (some failure)) := ⟨rfl, nofun, [], rfl, nofun⟩
    exact ⟨quits, fun _ _ => ⟨quits, rfl⟩⟩
  intro s
  simp only [finish]
  rw [wp_get_bind, wp_when]
  refine ⟨fun _ => ?_, fun idle => ?_⟩
  · exact Stops.after log (fun _ => .after quitting.inputStop fun _ => .after quitting.outputStop fun _ =>
      .bind ends fun _ => quitting.finishEvent failure) s
  · have idle : s.self.started = false := by rwa [Bool.not_eq_true] at idle
    exact ⟨Std.Refl.refl s, fun _ _ => ⟨Std.Refl.refl s, idle⟩⟩

theorem handleRead_stops (err : Err) : Stops (handleRead e [] (some err)) :=
  .after (modify_quits fun _ => ⟨rfl, rfl, id⟩) fun _ => finish_stops quitting _

theorem handleWrite_stops (err : Err) : Stops (handleWrite e (some err)) :=
  .after (modify_quits fun _ => ⟨rfl, rfl, id⟩) fun _ => finish_stops quitting _

private theorem outputWritten_stops (err : Err) : Stops (outputWritten e (some err)) := by
  intro s
  simp only [outputWritten]
  rw [wp_get_bind]
  split
  · exact ⟨Std.Refl.refl s, (by rintro _ ⟨⟩)⟩
  · refine Stops.after ?_ (fun _ => .bind (handleWrite_stops quitting err) fun _ => .get fun t =>
      Makes.when (c := t.env.output.bufs ≠ []) (doWrite_makes plain_quits)) s
    exact plain_quits _ fun _ => ⟨rfl, rfl⟩

private theorem callback_quits (op : Op) (err : Err) : Makes Quits Quits (callback e op (.failed err)) := by
  cases op with
  | openInput | read => exact (handleRead_stops quitting err).quits
  | openOutput => exact (handleWrite_stops quitting err).quits
  | write => exact (outputWritten_stops quitting err).quits
  | close => exact .pure ()

end

private theorem finishEvent_quits (failure : Failure) : Makes Quits Quits (finishEvent (some failure)) := by
  have quits (s : World Env) : Quits s { s with env := { s.env with
      reports := ⟨some failure, s.env.disk.target, s.env.disk.created⟩ :: s.env.reports } } := by
    refine ⟨rfl, id, [_], rfl, fun r among => ?_⟩
    rw [List.mem_singleton.mp among]
    exact nofun
  exact .modify quits quits

theorem ends_quitting (n : ℕ) : Quitting (ends n) := by
  induction n with
  | zero => exact ⟨.halt _, .halt _, fun _ => .halt _⟩
  | succ n ih =>
    have canceled (op : Op) := callback_quits ih op .canceled
    exact ⟨inputStop_makes plain_quits canceled, outputStop_makes plain_quits canceled, finishEvent_quits⟩

/-! ### Reports -/

/-- A report of success tells whether the input was copied. -/
def Right (source : Data) (old : Option Data) (r : Report) : Prop :=
  r.status = none → (r.target = some source ↔ source ≠ [] ∨ r.created = true ∨ old = some [])

def Honest (source : Data) (old : Option Data) (s : World Env) : Prop := ∀ r ∈ s.env.reports, Right source old r

theorem Quits.honest (quits : Quits s t) (honest : Honest source old s) : Honest source old t := by
  obtain ⟨new, same, failed⟩ := quits.reports
  intro r among
  rw [same] at among
  rcases List.mem_append.mp among with among | among
  · exact fun success => absurd success (failed r among)
  · exact honest r among

/-- Every report is right, and if the call returns, this holds. -/
abbrev Goes (source : Data) (old : Option Data) (m : Exec (World Env) Unit) (s : World Env)
    (P : World Env → Prop) : Prop := wp m (fun o t => Honest source old t ∧ (o = .done () → P t)) s

theorem Goes.mono {P Q : World Env → Prop} (goes : Goes source old m s P) (weaker : ∀ t, P t → Q t) :
    Goes source old m s Q := ⟨goes.1, fun back => weaker _ (goes.2 back)⟩

theorem Stops.goes (stops : Stops m) (honest : Honest source old s) :
    Goes source old m s fun t => t.self.started = false :=
  ⟨(stops s).1.honest honest, fun back => ((stops s).2 () back).2⟩

/-- What the listener sees when everything was acknowledged. -/
theorem Copying.right (copying : Copying source old s g) (all : s.self.nwrite = s.self.nread)
    (ended : g.written.flatten ++ s.env.output.bufs.flatten = source) :
    Right source old ⟨none, s.env.disk.target, s.env.disk.created⟩ := by
  have empty : s.env.output.bufs = [] := by
    have nread := copying.nread
    rw [← all, copying.nwrite] at nread
    exact List.length_eq_zero_iff.mp (by omega)
  rw [empty, List.flatten_nil, List.append_nil] at ended
  have made {fd : ℕ} (opened : g.outputFd = some fd) (content : g.content = source) :
      Right source old ⟨none, s.env.disk.target, s.env.disk.created⟩ := by
    obtain ⟨_, _, target, created⟩ := copying.disk.output fd opened
    rw [target, created, content]
    exact fun _ => ⟨fun _ => .inr (.inl rfl), fun _ => rfl⟩
  have unmade (opened : g.outputFd = none) (nothing : g.written = []) :
      Right source old ⟨none, s.env.disk.target, s.env.disk.created⟩ := by
    obtain ⟨target, created⟩ := copying.disk.outputNew opened
    rw [nothing] at ended
    rw [target, created, ← ended]
    exact fun _ => ⟨fun same => .inr (.inr same), by rintro (some' | made | same) <;> simp_all⟩
  have stage := copying.output
  generalize s.env.work s.env.output.fsreq = work at stage
  match work, stage with
  | none, stage => exact made stage.1 (stage.2.2.trans ended)
  | some ⟨_, .openOutput, none⟩, stage => exact unmade stage.1 stage.2.2
  | some ⟨_, .openOutput, some (.failed _)⟩, stage => exact unmade stage.1 stage.2.2
  | some ⟨_, .openOutput, some (.opened fd)⟩, stage =>
    refine made stage.1 (stage.2.2.2.trans ?_)
    rw [← ended, stage.2.2.1]
    rfl
  | some ⟨_, .write fd data, none⟩, stage => exact absurd (stage.2.2.2.1.symm.trans (congrArg List.head? empty)) nofun
  | some ⟨_, .write fd data, some .ok⟩, stage =>
    exact absurd (stage.2.2.2.1.symm.trans (congrArg List.head? empty)) nofun
  | some ⟨_, .write fd data, some (.failed _)⟩, stage => exact absurd empty stage.2

/-! ### While the streamer runs -/

private theorem finish_goes (n : ℕ) (honest : Honest source old s)
    (right : Right source old ⟨none, s.env.disk.target, s.env.disk.created⟩) :
    Goes source old (finish (ends n) none) s fun t => t.self.started = false := by
  have quitting := ends_quitting n
  have log : Makes Quits Quits (modify (World.log .stopping)) := modify_quits fun _ => ⟨rfl, rfl, id⟩
  simp only [finish]
  rw [Goes, wp_get_bind, wp_when]
  refine ⟨fun _ => ?_, fun idle => ⟨honest, fun _ => by rwa [Bool.not_eq_true] at idle⟩⟩
  refine log.seq (fun _ _ quits => ⟨quits.honest honest, (by rintro ⟨⟩)⟩) fun _ a first _ => ?_
  have honest' := first.honest honest
  refine quitting.inputStop.seq (fun _ _ quits => ⟨quits.honest honest', (by rintro ⟨⟩)⟩) fun _ b second _ => ?_
  have honest' := second.honest honest'
  refine quitting.outputStop.seq (fun _ _ quits => ⟨quits.honest honest', (by rintro ⟨⟩)⟩) fun _ c third _ => ?_
  have honest' := third.honest honest'
  rw [wp_modify_bind]
  cases n with
  | zero => exact ⟨honest', (by rintro ⟨⟩)⟩
  | succ n =>
    refine ⟨fun r among => ?_, fun _ => rfl⟩
    rcases List.mem_cons.mp among with rfl | among
    · -- nothing was written since the streamer decided to finish
      change Right source old ⟨none, c.env.disk.target, c.env.disk.created⟩
      rw [third.disk, second.disk, first.disk]
      exact right
    · exact honest' r among

/-- The same, as far as the copy is concerned. -/
structure Near (s t : World Env) : Prop where
  env : ∃ pause cancels, t.env = { s.env with input := { s.env.input with pause := pause }, cancels := cancels }
  nread : t.self.nread = s.self.nread
  nwrite : t.self.nwrite = s.self.nwrite
  eof : t.self.eof = s.self.eof
  started : t.self.started = s.self.started

instance : Std.Refl Near := ⟨fun s => ⟨⟨s.env.input.pause, s.env.cancels, rfl⟩, rfl, rfl, rfl, rfl⟩⟩

instance : IsTrans (World Env) Near := by
  refine ⟨fun s m t first second => ⟨?_, second.nread.trans first.nread, second.nwrite.trans first.nwrite,
    second.eof.trans first.eof, second.started.trans first.started⟩⟩
  obtain ⟨_, _, same⟩ := first.env
  obtain ⟨pause, cancels, same'⟩ := second.env
  exact ⟨pause, cancels, by rw [same', same]⟩

theorem Near.copying (near : Near s t) (copying : Copying source old s g) : Copying source old t g := by
  obtain ⟨⟨pause, cancels, same⟩, nread, nwrite, eof, _⟩ := near
  obtain ⟨self, env, trace⟩ := t
  obtain rfl : env = _ := same
  refine { copying with
    nwrite := nwrite.trans copying.nwrite, nread := nread.trans copying.nread, eof := ?_,
    known := ?_ }
  · exact fun ended => copying.eof (eof.symm.trans ended)
  · exact ⟨copying.known.fresh, copying.known.issued, copying.known.apart, copying.known.only⟩

theorem Near.honest (near : Near s t) (honest : Honest source old s) : Honest source old t := by
  obtain ⟨_, _, same⟩ := near.env
  rw [Honest, same]
  exact honest

theorem Near.works (near : Near s t) : t.env.work t.env.input.fsreq = s.env.work s.env.input.fsreq ∧
    t.env.work t.env.output.fsreq = s.env.work s.env.output.fsreq ∧ t.env.output = s.env.output ∧
    t.env.input.chunkSize = s.env.input.chunkSize := by
  obtain ⟨_, _, same⟩ := near.env
  rw [same]
  exact ⟨rfl, rfl, rfl, rfl⟩

theorem modify_near (near : ∀ s, Near s (f s)) : Makes Near Near (modify f) :=
  .modify near near

theorem log_near (event : Event) (s : World Env) : Near s (s.log event) := ⟨⟨_, _, rfl⟩, rfl, rfl, rfl, rfl⟩

private theorem queueSize_near (e : Ends Env) : Makes Near Near (queueSize e) :=
  .get fun _ => .bind (modify_near (log_near _)) fun _ => .pure _

private theorem throttle_near (n : ℕ) : Makes Near Near (throttle (ends n)) := by
  have stop : Makes Near Near (ends n).stopReading := by
    cases n with
    | zero => exact .halt _
    | succ n => exact modify_near fun s => ⟨⟨_, _, rfl⟩, rfl, rfl, rfl, rfl⟩
  exact .get fun _ => .when (.bind (queueSize_near _) fun _ => .when (.bind (modify_near (log_near _)) fun _ =>
    .bind stop fun _ => modify_near fun s => ⟨⟨_, _, rfl⟩, rfl, rfl, rfl, rfl⟩))

/-- The state after a chunk was handed over. -/
structure Handed (source : Data) (old : Option Data) (g : Progress) (s t : World Env) : Prop where
  copying : Copying source old t { g with held := [] }
  idle : t.env.work t.env.input.fsreq = none
  chunkSize : t.env.input.chunkSize = s.env.input.chunkSize

private theorem handleRead_goes (n : ℕ) (copying : Copying source old s g) (idle : s.env.work s.env.input.fsreq = none)
    (honest : Honest source old s) :
    Goes source old (handleRead (ends n) g.held none) s (Handed source old g s) := by
  simp only [handleRead]
  rw [Goes, wp_modify_bind, wp_bind]
  cases n with
  | zero => exact ⟨honest, nofun⟩
  | succ n =>
    have rest (t : World Env) (handed : Handed source old g s t) (honest : Honest source old t) :
        Goes source old (do
          modify (World.log (.written none))
          throttle (ends (n + 1))) t (Handed source old g s) := by
      refine wp_mono ((Makes.bind (modify_near (log_near _)) fun _ => throttle_near (n + 1)) t) fun o u made => ?_
      obtain ⟨input, _, _, chunkSize⟩ := made.1.works
      exact ⟨made.1.honest honest, fun _ => ⟨made.1.copying handed.copying, input.trans handed.idle,
        chunkSize.trans handed.chunkSize⟩⟩
    have pushed := copying.push idle
    change wp (write g.held) _ _
    simp only [write, modifyEnv]
    rw [wp_modify_bind, wp_get_bind, wp_bind, wp_when]
    refine ⟨fun one => ?_, fun _ => rest _ ⟨pushed, idle, rfl⟩ honest⟩
    have empty : s.env.output.bufs = [] := by
      have length : (s.env.output.bufs ++ [g.held]).length = 1 := one.1
      rw [List.length_append] at length
      exact List.length_eq_zero_iff.mp (by simpa using length)
    have front : (s.env.pushed g.held).output.bufs = g.held :: [] := by
      change s.env.output.bufs ++ [g.held] = [g.held]
      rw [empty, List.nil_append]
    rw [wp_doWrite front]
    refine rest _ ⟨pushed.writing (copying.output.idle one.2 empty) front, ?_, rfl⟩ honest
    exact (work_queued pushed.known _ (.inl rfl)).trans idle

/-- The state after an acknowledgement that did not finish the copy; the output was not touched. -/
structure Acked (source : Data) (old : Option Data) (g : Progress) (s t : World Env) : Prop where
  copying : Copying source old t g
  idle : t.env.work t.env.input.fsreq = none → g.held = []
  output : t.env.output = s.env.output
  work : t.env.work t.env.output.fsreq = s.env.work s.env.output.fsreq

theorem Near.acked (near : Near s t) (copying : Copying source old s g)
    (emptied : s.env.work s.env.input.fsreq = none → g.held = []) : Acked source old g s t := by
  obtain ⟨input, work, output, _⟩ := near.works
  exact ⟨near.copying copying, fun idle => emptied (input.symm.trans idle), output, work⟩

theorem Acked.near {m : World Env} (acked : Acked source old g s m) (near : Near m t) : Acked source old g s t := by
  obtain ⟨input, work, output, _⟩ := near.works
  exact ⟨near.copying acked.copying, fun idle => acked.idle (input.symm.trans idle), output.trans acked.output,
    work.trans acked.work⟩

/-- Reading is resumed, unless it goes on anyway. -/
theorem startReading_acked (copying : Copying source old s g)
    (emptied : s.env.work s.env.input.fsreq = none → g.held = []) (honest : Honest source old s) :
    wp startReading
      (fun o t => Honest source old t ∧ ∀ err, o = .done err → err = none ∧ Acked source old g s t) s := by
  let m : World Env := { s with env := { s.env with input := { s.env.input with pause := false } } }
  have near : Near s m := ⟨⟨_, _, rfl⟩, rfl, rfl, rfl, rfl⟩
  have here : Acked source old g s m := near.acked copying emptied
  simp only [startReading, modifyEnv]
  rw [wp_modify_bind, wp_get_bind]
  change wp _ _ m
  split
  · exact ⟨honest, (by rintro _ ⟨⟩)⟩
  · rename_i id mine
    rw [wp_bind, wp_when]
    refine ⟨fun idle => ?_, fun _ => ⟨honest, fun err same => ⟨by cases same; rfl, here⟩⟩⟩
    have idle : m.env.work m.env.input.fsreq = none := by
      change Env.work m.env s.env.input.fsreq = none
      rw [mine]
      exact idle
    rw [wp_doRead]
    refine ⟨honest,
      fun err same => ⟨by cases same; rfl, here.copying.reading idle (here.idle idle), fun none' => ?_, rfl, ?_⟩⟩
    · cases (work_new here.copying.known.fresh _).symm.trans none'
    · exact work_queued here.copying.known _ (.inr rfl)

private theorem unthrottle_goes (n : ℕ) (copying : Copying source old s g)
    (emptied : s.env.work s.env.input.fsreq = none → g.held = []) (honest : Honest source old s) :
    Goes source old (unthrottle (ends n)) s (Acked source old g s) := by
  have stays (t : World Env) (near : Near s t) :
    Honest source old t ∧ (Outcome.done () = .done () → Acked source old g s t) :=
    ⟨near.honest honest, fun _ => near.acked copying emptied⟩
  simp only [unthrottle]
  rw [Goes, wp_get_bind, wp_when]
  refine ⟨fun _ => ?_, fun _ => stays s (Std.Refl.refl s)⟩
  refine (queueSize_near _).seq (fun _ _ near => ⟨near.honest honest, (by rintro ⟨⟩)⟩) fun size a near _ => ?_
  rw [wp_when]
  refine ⟨fun _ => ?_, fun _ => stays a near⟩
  rw [wp_modify_bind, wp_bind]
  cases n with
  | zero => exact ⟨near.honest honest, (by rintro ⟨⟩)⟩
  | succ n =>
    have near : Near s (a.log .resume) := IsTrans.trans _ _ _ near (log_near _ a)
    have acked := near.acked copying emptied
    refine wp_mono (startReading_acked acked.copying acked.idle (near.honest honest)) ?_
    rintro (err | why) b ⟨honest', made⟩
    · obtain ⟨rfl, next⟩ := made err rfl
      have last : Near b b.release := ⟨⟨_, _, rfl⟩, rfl, rfl, rfl, rfl⟩
      refine ⟨last.honest honest', fun _ => Acked.near ?_ last⟩
      exact ⟨next.copying, next.idle, next.output.trans acked.output, next.work.trans acked.work⟩
    · exact ⟨honest', (by rintro ⟨⟩)⟩

private theorem handleWrite_goes (n : ℕ) (copying : Copying source old (s.onWrite none) g)
    (emptied : s.env.work s.env.input.fsreq = none → g.held = []) (honest : Honest source old s) :
    Goes source old (handleWrite (ends n) none) s fun t =>
      t.self.started = false ∨ Acked source old g s t := by
  simp only [handleWrite]
  rw [Goes, wp_modify_bind, wp_get_bind]
  split
  · rename_i all
    exact wp_mono (finish_goes (s := s.onWrite none) n honest (copying.right all.2 (copying.eof all.1))) fun _ _ went =>
      ⟨went.1, fun back => .inl (went.2 back)⟩
  · refine (unthrottle_goes n copying emptied honest).mono fun t acked => .inr ?_
    exact { acked with }

private theorem handleEof_goes (n : ℕ) (copying : Copying source old s g) (emptied : g.held = [])
    (ended : g.written.flatten ++ s.env.output.bufs.flatten = source) (honest : Honest source old s) :
    Goes source old (handleEof (ends n)) s (Copies source old) := by
  simp only [handleEof]
  rw [Goes, wp_modify_bind, wp_get_bind]
  have copying : Copying source old (s.log .eof) g := (log_near _ s).copying copying
  split
  · rename_i all
    refine wp_mono (finish_goes (s := s.log .eof) n honest (copying.right all ended)) fun _ _ went => ?_
    exact ⟨went.1, fun back running => absurd ((went.2 back).symm.trans running) nofun⟩
  · exact ⟨honest, fun _ _ => ⟨g, { copying with eof := fun _ => ended }, fun _ => emptied⟩⟩

/-! ### Callbacks -/

theorem copies_of_stopped (stopped : s.self.started = false) : Copies source old s :=
  fun running => absurd (stopped.symm.trans running) nofun

theorem Stops.copies (stops : Stops m) (honest : Honest source old s) :
    Goes source old m s (Copies source old) := (stops.goes honest).mono fun _ => copies_of_stopped

section

variable (copying : Copying source old s g)

include copying

private theorem doRead_goes (idle : s.env.work s.env.input.fsreq = none)
    (emptied : g.held = []) (honest : Honest source old s) : Goes source old doRead s (Copies source old) := by
  rw [Goes, wp_doRead]
  exact ⟨honest, fun _ _ => ⟨g, copying.reading idle emptied, fun _ => emptied⟩⟩

/-- `if (bufs.size()) do_write();` -/
theorem writeNext_goes (idle : s.env.work s.env.output.fsreq = none)
    (emptied : s.env.work s.env.input.fsreq = none → g.held = []) (honest : Honest source old s) :
    Goes source old (when (s.env.output.bufs ≠ []) doWrite) s (Copies source old) := by
  rw [Goes, wp_when]
  refine ⟨fun some' => ?_, fun _ => ⟨honest, fun _ _ => ⟨g, copying, emptied⟩⟩⟩
  obtain ⟨front, rest, bufs⟩ := List.exists_cons_of_ne_nil some'
  rw [wp_doWrite bufs]
  refine ⟨honest, fun _ _ => ⟨g, copying.writing idle bufs, fun idle => emptied ?_⟩⟩
  exact (work_queued copying.known _ (.inl rfl)).symm.trans idle

private theorem inputOpened_goes {n id fd : ℕ} (mine : s.env.input.fsreq = some id)
    (emptied : g.held = []) (opened : g.inputFd = some fd) (honest : Honest source old s) :
    Goes source old (inputOpened (ends n) (.opened fd)) { s with env := s.env.drop id } (Copies source old) := by
  have next : Copying source old { s with env := { s.env.drop id with
      input := { s.env.input with fd := fd, opened := true } } } g := copying.dropInput mine rfl opened
  exact doRead_goes next (work_dropped mine) emptied honest

private theorem inputRead_goes {n id fd : ℕ} (mine : s.env.input.fsreq = some id)
    (opened : g.inputFd = some fd) (here : fd = s.env.input.fd)
    (ended : g.held.length < s.env.input.chunkSize → source.length ≤ g.pos) (honest : Honest source old s) :
    Goes source old (inputRead (ends n) (.data g.held)) { s with env := s.env.drop id } (Copies source old) := by
  let m : World Env := { s with env := s.env.drop id }
  have next : Copying source old m g := copying.dropInput mine rfl (here ▸ opened)
  have idle : m.env.work m.env.input.fsreq = none := work_dropped mine
  -- the chunk, unless it is empty
  have handed :
      Goes source old (when (g.held.length ≠ 0) (handleRead (ends n) g.held none)) m (Handed source old g m) := by
    rw [Goes, wp_when]
    refine ⟨fun _ => handleRead_goes n next idle honest, fun empty => ⟨honest, fun _ => ⟨?_, idle, rfl⟩⟩⟩
    have empty : g.held = [] := List.length_eq_zero_iff.mp (not_not.mp empty)
    rw [← empty]
    exact next
  simp only [inputRead]
  rw [Goes, wp_bind]
  refine wp_mono handed ?_
  rintro (_ | why) t ⟨honest', back⟩
  · obtain ⟨copying', idle', chunkSize⟩ := back rfl
    rw [next_done, wp_get_bind, chunkSize]
    split
    · rename_i short
      refine handleEof_goes n copying' rfl ?_ honest'
      have content := copying'.content
      rw [List.append_nil] at content
      rw [content]
      exact List.take_of_length_le (ended short)
    · rw [wp_when]
      exact ⟨fun _ => doRead_goes copying' idle' rfl honest',
        fun _ => ⟨honest', fun _ _ => ⟨_, copying', fun _ => rfl⟩⟩⟩
  · exact ⟨honest', (by rintro ⟨⟩)⟩

private theorem outputOpened_goes {n id fd : ℕ} (mine : s.env.output.fsreq = some id)
    (emptied : s.env.work s.env.input.fsreq = none → g.held = []) (opened : g.outputFd = some fd)
    (content : g.content = g.written.flatten) (honest : Honest source old s) :
    Goes source old (outputOpened (ends n) (.opened fd)) { s with env := s.env.drop id } (Copies source old) := by
  have next : Copying source old { s with env := { s.env.drop id with
      output := { s.env.output with fd := fd, opened := true } } } g :=
    copying.dropOutput mine rfl rfl ⟨opened, rfl, content⟩
  refine writeNext_goes next (work_dropped mine) (fun idle => emptied ?_) honest
  exact (work_drop_other fun input => copying.known.apart id input mine).symm.trans idle

private theorem outputWritten_goes {n id fd : ℕ} {data : Data}
    (mine : s.env.output.fsreq = some id) (emptied : s.env.work s.env.input.fsreq = none → g.held = [])
    (opened : g.outputFd = some fd) (here : fd = s.env.output.fd) (open' : s.env.output.opened = true)
    (head : s.env.output.bufs.head? = some data) (content : g.content = g.written.flatten ++ data)
    (honest : Honest source old s) :
    Goes source old (outputWritten (ends n) none) { s with env := s.env.drop id } (Copies source old) := by
  obtain ⟨rest, bufs⟩ : ∃ rest, s.env.output.bufs = data :: rest := List.head?_eq_some_iff.mp head
  let popped : Output := { s.env.output with bufs := rest, bufsz := s.env.output.bufsz - data.length }
  let m : World Env := { s with env := { s.env.drop id with output := popped } }
  have emptied' : m.env.work m.env.input.fsreq = none → g.held = [] := fun idle =>
    emptied ((work_drop_other fun input => copying.known.apart id input mine).symm.trans idle)
  have next : Copying source old (m.onWrite none) { g with written := g.written ++ [data] } := by
    refine copying.pop mine bufs ⟨here ▸ opened, open', ?_⟩ _
    rw [List.flatten_append, List.flatten_singleton]
    exact content
  simp only [outputWritten]
  rw [Goes, wp_get_bind]
  rw [show ({ s with env := s.env.drop id } : World Env).env.output.bufs = data :: rest from bufs]
  simp only [modifyEnv]
  rw [wp_modify_bind, wp_bind]
  refine wp_mono (handleWrite_goes (s := m) n next emptied' honest) ?_
  rintro (_ | why) t ⟨honest', back⟩
  · rw [next_done, wp_get_bind]
    rcases back rfl with stopped | acked
    · refine wp_mono ((Makes.when (doWrite_makes plain_quits)) t) fun _ u made => ?_
      exact ⟨made.1.honest honest', fun _ => copies_of_stopped (made.1.stopped stopped)⟩
    · exact writeNext_goes acked.copying (acked.work.trans (work_dropped mine)) acked.idle honest'
  · exact ⟨honest', (by rintro ⟨⟩)⟩

end

private theorem complete_goes (n id : ℕ) (copying : Copying source old s g)
    (emptied : s.env.work s.env.input.fsreq = none → g.held = []) (honest : Honest source old s) :
    Goes source old (complete (ends n) id) s (Copies source old) := by
  have quitting := ends_quitting n
  simp only [complete]
  rw [Goes, wp_get_bind]
  split
  · rename_i wid op res active
    simp only [modifyEnv]
    rw [wp_modify_bind]
    rcases copying.known.only id _ active with mine | mine
    · have stage := copying.input
      rw [mine] at stage
      change InputAt source g s.env.input (s.env.active id) at stage
      rw [active] at stage
      match op, res, stage with
      | .openInput, .failed err, _ => exact (handleRead_stops quitting err).copies honest
      | .openInput, .opened fd, stage => exact inputOpened_goes (n := n) copying mine stage.1 stage.2 honest
      | .read _ _, .failed err, _ => exact (handleRead_stops quitting err).copies honest
      | .read _ _, .data data, stage =>
        obtain ⟨rfl, opened, here, ended⟩ := stage
        exact inputRead_goes copying mine opened here ended honest
    · have stage := copying.output
      rw [mine] at stage
      change OutputAt g s.env.output (s.env.active id) at stage
      rw [active] at stage
      match op, res, stage with
      | .openOutput, .failed err, _ => exact (handleWrite_stops quitting err).copies honest
      | .openOutput, .opened fd, stage =>
        refine outputOpened_goes (n := n) copying mine emptied stage.1 ?_ honest
        rw [stage.2.2.1, stage.2.2.2]
        rfl
      | .write _ _, .failed err, _ => exact (outputWritten_stops quitting err).copies honest
      | .write _ _, .ok, stage =>
        obtain ⟨opened, here, open', head, content⟩ := stage
        exact outputWritten_goes copying mine emptied opened here open' head content honest
  · exact ⟨honest, fun _ _ => ⟨g, copying, emptied⟩⟩

/-! ### After the finish -/

/-- A streamer that does not run reports nothing. -/
def Sleeps (s t : World Env) : Prop :=
  s.self.started = false → t.self.started = false ∧ t.env.reports = s.env.reports

instance : Std.Refl Sleeps := ⟨fun _ stopped => ⟨stopped, rfl⟩⟩

instance : IsTrans (World Env) Sleeps := by
  refine ⟨fun s m t first second stopped => ?_⟩
  obtain ⟨stopped', same⟩ := first stopped
  obtain ⟨stopped'', same'⟩ := second stopped'
  exact ⟨stopped'', same'.trans same⟩

theorem modify_sleeps (kept : ∀ s, (f s).self.started = s.self.started ∧ (f s).env.reports = s.env.reports) :
    Makes Sleeps Sleeps (modify f) := by
  have sleeps (s : World Env) : Sleeps s (f s) := fun stopped => ⟨(kept s).1.trans stopped, (kept s).2⟩
  exact .modify sleeps sleeps

private theorem plain_sleeps (f : Env → Env) (kept : ∀ env, (f env).disk = env.disk ∧ (f env).reports = env.reports) :
    Makes Sleeps Sleeps (modifyEnv f) := modify_sleeps fun _ => ⟨rfl, (kept _).2⟩

theorem finish_sleeps (e : Ends Env) (err : Option Failure) : Makes Sleeps Sleeps (finish e err) := by
  intro s
  simp only [finish]
  rw [wp_get_bind, wp_when]
  refine ⟨fun running => ?_, fun _ => ⟨Std.Refl.refl s, fun _ _ => Std.Refl.refl s⟩⟩
  have awake (t : World Env) : Sleeps s t := fun stopped => absurd (stopped.symm.trans running) (by rintro ⟨⟩)
  exact ⟨awake _, fun _ _ => awake _⟩

private theorem throttle_sleeps (n : ℕ) : Makes Sleeps Sleeps (throttle (ends n)) := by
  refine (throttle_near n).mono (fun s t near stopped => ?_) fun s t near stopped => ?_
  all_goals
    obtain ⟨_, _, same⟩ := near.env
    refine ⟨near.started.trans stopped, ?_⟩
    rw [same]

private theorem write_sleeps (n : ℕ) (data : Data) : Makes Sleeps Sleeps ((ends n).write data) := by
  cases n with
  | zero => exact .halt _
  | succ n => exact write_makes plain_sleeps data

private theorem startReading_sleeps (n : ℕ) : Makes Sleeps Sleeps (ends n).startReading := by
  cases n with
  | zero => exact .halt _
  | succ n => exact startReading_makes plain_sleeps

theorem handleRead_sleeps (n : ℕ) (data : Data) (err : Option Err) :
    Makes Sleeps Sleeps (handleRead (ends n) data err) := by
  have enter : Makes Sleeps Sleeps (modify (World.onRead (ε := Env) data err)) := by
    refine modify_sleeps fun s => ?_
    cases err <;> exact ⟨rfl, rfl⟩
  refine .bind enter fun _ => ?_
  cases err with
  | some err => exact finish_sleeps _ _
  | none =>
    refine .bind (write_sleeps n data) fun werr => .bind (modify_sleeps fun _ => ⟨rfl, rfl⟩) fun _ => ?_
    cases werr with
    | some werr => exact finish_sleeps _ _
    | none => exact throttle_sleeps n

private theorem unthrottle_sleeps (n : ℕ) : Makes Sleeps Sleeps (unthrottle (ends n)) := by
  refine .get fun s => .when (.bind ?_ fun size => .when (.bind (modify_sleeps fun _ => ⟨rfl, rfl⟩) fun _ =>
    .bind (startReading_sleeps n) fun rerr => ?_))
  · exact .get fun s => .bind (modify_sleeps fun _ => ⟨rfl, rfl⟩) fun _ => .pure _
  · cases rerr with
    | some rerr => exact .bind (modify_sleeps fun _ => ⟨rfl, rfl⟩) fun _ => finish_sleeps _ _
    | none => exact modify_sleeps fun _ => ⟨rfl, rfl⟩

private theorem handleWrite_sleeps (n : ℕ) (err : Option Err) : Makes Sleeps Sleeps (handleWrite (ends n) err) := by
  have enter : Makes Sleeps Sleeps (modify (World.onWrite (ε := Env) err)) := by
    refine modify_sleeps fun s => ?_
    cases err <;> exact ⟨rfl, rfl⟩
  refine .bind enter fun _ => ?_
  cases err with
  | some err => exact finish_sleeps _ _
  | none =>
    refine .get fun s => ?_
    split
    · exact finish_sleeps _ _
    · exact unthrottle_sleeps n

private theorem handleEof_sleeps (n : ℕ) : Makes Sleeps Sleeps (handleEof (ends n)) := by
  refine .bind (modify_sleeps fun _ => ⟨rfl, rfl⟩) fun _ => .get fun s => ?_
  split
  · exact finish_sleeps _ _
  · exact modify_sleeps fun _ => ⟨rfl, rfl⟩

private theorem task_sleeps (n : ℕ) {task : Task} (other : task ≠ .start) :
    Makes Sleeps Sleeps (Files.task (ends n) task) := by
  cases task with
  | start => exact absurd rfl other
  | stop => exact .bind (modify_sleeps fun _ => ⟨rfl, rfl⟩) fun _ => finish_sleeps _ _
  | execute id fail => exact modify_sleeps fun s => ⟨rfl, (execute_frame s.env id fail).2.2.2⟩
  | complete id =>
    exact complete_makes plain_sleeps (handleRead_sleeps n) (handleWrite_sleeps n) (handleEof_sleeps n) id

/-! ### Runs -/

private theorem execute_goes (id : ℕ) (fail : Option Err) (copying : Copying source old s g)
    (emptied : s.env.work s.env.input.fsreq = none → g.held = []) (honest : Honest source old s) :
    Goes source old (modifyEnv (Env.execute id fail)) s (Copies source old) := by
  have honest' : Honest source old { s with env := s.env.execute id fail } := by
    rw [Honest, (execute_frame s.env id fail).2.2.2]
    exact honest
  refine ⟨honest', fun _ _ => ?_⟩
  change ∃ g, Copying source old { s with env := s.env.execute id fail } g ∧
    ((s.env.execute id fail).work (s.env.execute id fail).input.fsreq = none → g.held = [])
  by_cases waits : ∃ work, s.env.active id = some work ∧ work.result = none
  · obtain ⟨work, active, waits⟩ := waits
    rcases copying.known.only id work active with mine | mine
    · obtain ⟨g', next⟩ := copying.executeInput fail active waits mine
      refine ⟨g', next, fun idle => ?_⟩
      have busy := work_executed fail active waits mine
      rw [(execute_frame s.env id fail).1] at idle
      cases busy.symm.trans idle
    · obtain ⟨g', same, next⟩ := copying.executeOutput fail active waits mine
      refine ⟨g', next, fun idle => same.trans (emptied ?_)⟩
      rw [(execute_frame s.env id fail).1] at idle
      exact (work_execute_other fail active waits fun input => copying.known.apart id input mine).symm.trans idle
  · have same : s.env.execute id fail = s.env := by
      unfold Env.execute
      split
      · rename_i active
        exact absurd ⟨_, active, rfl⟩ waits
      · rfl
    rw [same]
    exact ⟨g, copying, emptied⟩

private theorem task_goes (n : ℕ) {task : Task} (other : task ≠ .start) (copies : Copies source old s)
    (honest : Honest source old s) : Goes source old (Files.task (ends n) task) s (Copies source old) := by
  cases running : s.self.started with
  | false =>
    refine wp_mono (task_sleeps n other s) fun _ t made => ?_
    obtain ⟨stopped, same⟩ := made.1 running
    refine ⟨?_, fun _ => copies_of_stopped stopped⟩
    rw [Honest, same]
    exact honest
  | true =>
    obtain ⟨g, copying, emptied⟩ := copies running
    cases task with
    | start => exact absurd rfl other
    | stop =>
      have stops : Stops (stop (ends n)) :=
        .after (modify_quits fun _ => ⟨rfl, rfl, id⟩) fun _ => finish_stops (ends_quitting n) _
      exact stops.copies honest
    | execute id fail => exact execute_goes id fail copying emptied honest
    | complete id => exact complete_goes n id copying emptied honest

private theorem turn_goes {turn : Turn} (other : turn.task ≠ .start) (copies : Copies source old s)
    (honest : Honest source old s) : Goes source old (Files.turn turn) s (Copies source old) := by
  let m : World Env := { s with env := { s.env with cancels := turn.cancels } }
  have near : Near s m := ⟨⟨_, _, rfl⟩, rfl, rfl, rfl, rfl⟩
  simp only [Files.turn, modifyEnv]
  rw [Goes, wp_modify_bind]
  change wp (Files.task (ends turn.depth) turn.task) _ m
  refine task_goes turn.depth other (fun running => ?_) (near.honest honest)
  obtain ⟨g, copying, emptied⟩ := copies running
  exact ⟨g, near.copying copying, emptied⟩

private theorem start_goes (maxBuf chunkSize : ℕ) {first : Turn} (start : first.task = .start) :
    Goes source old (turn first) (initial maxBuf chunkSize source old) (Copies source old) := by
  have honest : Honest source old (initial maxBuf chunkSize source old) := nofun
  simp only [Files.turn, start]
  cases first.depth with
  | zero => exact ⟨honest, nofun⟩
  | succ n =>
    -- the two opens are queued
    let env : Env :=
      { input := { chunkSize := chunkSize, fsreq := some 1 }
        output := { fsreq := some 2 }
        works := [⟨1, .openInput, none⟩, ⟨2, .openOutput, none⟩]
        lastid := 2
        disk := { source := source, target := old }
        cancels := first.cancels }
    refine ⟨honest, fun _ _ => ⟨{}, ?_, fun _ => rfl⟩⟩
    change Copying source old ⟨{ create maxBuf with started := true }, env, [.started, .start]⟩ {}
    refine ⟨rfl, rfl, rfl, rfl, nofun, ⟨?_, ?_, ?_, ?_⟩, ⟨nofun, nofun, fun _ => rfl, nofun, fun _ => ⟨rfl, rfl⟩⟩,
      ⟨rfl, rfl⟩, ⟨rfl, rfl, rfl⟩⟩
    · intro id later
      have later : 2 < id := later
      simp [env, Env.active, show ¬ 1 = id by omega, show ¬ 2 = id by omega]
    · rintro id (mine | mine)
      · cases mine
        exact Nat.le_succ 1
      · cases mine
        exact Nat.le_refl 2
    · rintro id mine other
      cases mine
      cases other
    · intro id work active
      have named : work.id = id := by simpa using List.find?_some active
      have among : work ∈ env.works := List.mem_of_find?_eq_some active
      subst named
      simp only [env, List.mem_cons, List.not_mem_nil, or_false] at among
      rcases among with rfl | rfl
      · exact .inl rfl
      · exact .inr rfl

/-- If the streamer is started once, a report of success tells that the output is a copy of the input, unless the input
is empty, the output was not opened, and there was no empty file in its place. -/
theorem turns_copy (maxBuf chunkSize : ℕ) (source : Data) (old : Option Data) {first : Turn} {ts : List Turn}
    (start : first.task = .start) (once : ∀ t ∈ ts, t.task ≠ .start) :
    ∀ r ∈ ((first :: ts).forM turn (initial maxBuf chunkSize source old)).2.env.reports, r.status = none →
      (r.target = some source ↔ source ≠ [] ∨ r.created = true ∨ old = some []) := by
  have rest (ts : List Turn) (once : ∀ t ∈ ts, t.task ≠ .start) (s : World Env) (copies : Copies source old s)
      (honest : Honest source old s) : Goes source old (ts.forM turn) s (Copies source old) := by
    induction ts generalizing s with
    | nil => exact ⟨honest, fun _ => copies⟩
    | cons t ts ih =>
      change wp (turn t >>= fun _ => ts.forM turn) _ s
      rw [wp_bind]
      refine wp_mono (turn_goes (once t (List.mem_cons_self ..)) copies honest) ?_
      rintro (_ | why) u ⟨honest', back⟩
      · exact ih (fun t among => once t (List.mem_cons_of_mem _ among)) u (back rfl) honest'
      · exact ⟨honest', nofun⟩
  have whole : Goes source old (turn first >>= fun _ => ts.forM turn) (initial maxBuf chunkSize source old)
      (Copies source old) := by
    rw [Goes, wp_bind]
    refine wp_mono (start_goes maxBuf chunkSize start) ?_
    rintro (_ | why) u ⟨honest, back⟩
    · exact rest ts once u (back rfl) honest
    · exact ⟨honest, nofun⟩
  exact whole.1

/-- A file that is not empty. -/
def someTurns : List Turn :=
  [{ task := .execute 1 none }, { task := .complete 1 }, { task := .execute 3 none }, { task := .execute 2 none },
    { task := .complete 3 }, { task := .complete 2 }, { task := .execute 4 none }, { task := .complete 4 }]

theorem someTurns_copy :
    (({ task := .start } :: someTurns).forM turn (initial 100 10 [1, 2, 3] none)).2.env.reports =
        [⟨none, some [1, 2, 3], true⟩] ∧
      ∀ r ∈ (({ task := .start } :: someTurns).forM turn (initial 100 10 [1, 2, 3] none)).2.env.reports,
        r.status = none → (r.target = some [1, 2, 3] ↔
          ([1, 2, 3] : Data) ≠ [] ∨ r.created = true ∨ (none : Option Data) = some []) := by
  constructor
  · decide +kernel
  · apply turns_copy
    · rfl
    · decide +kernel

/-- The input is empty and ends before the output is opened. -/
def emptyTurns : List Turn :=
  [{ task := .start }, { task := .execute 1 none }, { task := .complete 1 }, { task := .execute 3 none },
    { task := .complete 3 }]

/-- The streamer is stopped while its output still holds the first chunk, and started again. -/
def restartTurns : List Turn :=
  [{ task := .start }, { task := .execute 1 none }, { task := .complete 1 }, { task := .execute 3 none },
    { task := .complete 3 }, { task := .stop }, { task := .start }, { task := .execute 6 none },
    { task := .complete 6 }, { task := .execute 7 none }, { task := .complete 7 }, { task := .execute 9 none },
    { task := .complete 9 }, { task := .execute 8 none }, { task := .complete 8 }, { task := .execute 11 none },
    { task := .complete 11 }, { task := .execute 10 none }, { task := .complete 10 }]

/-- Success is reported, after a cancellation, and there is no output file. After the second start the first chunk is
written twice, and its second acknowledgement is taken for that of the last chunk. -/
theorem emptyTurns_copy :
    (emptyTurns.forM turn (initial 100 10 [] none)).2.env.reports =
    [⟨none, none, false⟩, ⟨some .canceled, none, false⟩] ∧
      (restartTurns.forM turn (initial 100 2 [1, 2, 3] none)).2.env.reports.head? = some
      ⟨none, some [1, 2, 1, 2], true⟩ := by
  decide +kernel

end UniEvent.Streamer.Files
