import Mathlib.Data.List.TakeDrop
import UniEvent.Proofs.StreamerFiles

/-! # A copy in progress

Two chains of operations, one that reads and one that writes, are joined by the chunks in `bufs`. At any time while
the streamer runs, what was acknowledged, what is in `bufs` and what was read but not handed over are together the
input file up to the position of its descriptor, and the output file has what was acknowledged, and the first of `bufs`
if the thread pool has written it.
-/

namespace UniEvent.Streamer.Files

open Program Program.Exec Relation

variable {source : Data} {old : Option Data} {env : Env} {s t : World Env} {id : ℕ}

/-! ### Operations that are active -/

/-- The state in which an operation was queued. -/
def Env.queued (op : Op) (env : Env) : Env :=
  { env with works := env.works ++ [⟨env.lastid + 1, op, none⟩], lastid := env.lastid + 1 }

def Env.Fresh (env : Env) : Prop := ∀ id, env.lastid < id → env.active id = none

theorem active_queued (fresh : env.Fresh) (op : Op) (id : ℕ) :
    (env.queued op).active id = if id = env.lastid + 1 then some ⟨env.lastid + 1, op, none⟩ else env.active id := by
  change (env.works ++ [_]).find? _ = _
  rw [List.find?_append]
  change (env.active id).or _ = _
  by_cases same : id = env.lastid + 1
  · rw [same, fresh _ (Nat.lt_succ_self _)]
    simp
  · simp [same, Ne.symm same]

theorem active_drop (env : Env) (gone id : ℕ) :
    (env.drop gone).active id = if id = gone then none else env.active id := by
  change (env.works.filter _).find? _ = _
  rw [List.find?_filter]
  split
  · rename_i same
    rw [same, List.find?_eq_none]
    simp
  · rename_i other
    refine congrArg (List.find? · env.works) (funext fun work => ?_)
    by_cases same : work.id = id
    · simp [same, other]
    · simp [same]

theorem active_execute {work : Work} (fail : Option Err) (active : env.active id = some work)
    (waits : work.result = none) (other : ℕ) : (env.execute id fail).active other =
      if other = id then some { work with result := some (env.disk.execute work.op fail).1 } else env.active other := by
  obtain ⟨wid, op, _⟩ := work
  cases waits
  simp only [Env.execute, active]
  change (env.works.map _).find? _ = _
  rw [List.find?_map]
  have ids : ((fun work : Work => decide (work.id = other)) ∘ fun work : Work =>
      if work.id = id then { work with result := some (env.disk.execute op fail).1 } else work) =
      fun work => decide (work.id = other) := by
    funext work
    by_cases same : work.id = id
    · simp [same]
    · simp [same]
  rw [ids]
  change (env.active other).map _ = _
  have named {i : ℕ} {w : Work} (found : env.active i = some w) : w.id = i := by
    simpa using List.find?_some found
  split
  · rename_i same
    rw [same, active]
    simp [show wid = id from named active]
  · rename_i differs
    cases found : env.active other with
    | none => rfl
    | some w => simp [named found, differs]

private theorem disk_execute {work : Work} (fail : Option Err) (active : env.active id = some work)
    (waits : work.result = none) : (env.execute id fail).disk = (env.disk.execute work.op fail).2 := by
  obtain ⟨_, _, _⟩ := work
  cases waits
  simp only [Env.execute, active]

/-- The rest of the state stays. -/
theorem execute_frame (env : Env) (id : ℕ) (fail : Option Err) :
    (env.execute id fail).input = env.input ∧ (env.execute id fail).output = env.output ∧
      (env.execute id fail).lastid = env.lastid ∧ (env.execute id fail).reports = env.reports := by
  unfold Env.execute
  split
  · exact ⟨rfl, rfl, rfl, rfl⟩
  · exact ⟨rfl, rfl, rfl, rfl⟩

/-! ### The disk -/

/-- How far a copy is. -/
structure Progress where
  /-- The position in the input file. -/
  pos : ℕ := 0
  /-- What was read and not handed to the streamer. -/
  held : Data := []
  /-- The chunks that were acknowledged. -/
  written : List Data := []
  /-- The content of the output file, once it is open. -/
  content : Data := []
  inputFd : Option ℕ := none
  outputFd : Option ℕ := none

structure OnDisk (old : Option Data) (g : Progress) (disk : Disk) : Prop where
  apart : ∀ fd, g.inputFd = some fd → g.outputFd ≠ some fd
  input : ∀ fd, g.inputFd = some fd → fd ≤ disk.lastfd ∧ disk.fds fd = some g.pos
  inputNew : g.inputFd = none → g.pos = 0
  output : ∀ fd, g.outputFd = some fd → fd ≤ disk.lastfd ∧ disk.fds fd = some g.content.length ∧
    disk.target = some g.content ∧ disk.created = true
  outputNew : g.outputFd = none → disk.target = old ∧ disk.created = false

section

variable {g : Progress} {disk : Disk} {fd : ℕ}

section

variable (onDisk : OnDisk old g disk)

include onDisk

theorem OnDisk.openInput (new : g.inputFd = none) :
    OnDisk old { g with inputFd := some (disk.lastfd + 1) } (disk.perform .openInput).2 where
  apart fd mine other := by
    cases mine
    have old' := (onDisk.output _ other).1
    omega
  input fd mine := by
    cases mine
    refine ⟨Nat.le_refl _, ?_⟩
    rw [onDisk.inputNew new]
    exact Function.update_self _ _ _
  inputNew := nofun
  output fd mine := by
    obtain ⟨least, pos, target⟩ := onDisk.output fd mine
    refine ⟨Nat.le_succ_of_le least, ?_, target⟩
    exact (Function.update_of_ne (by omega) _ _).trans pos
  outputNew := onDisk.outputNew

theorem OnDisk.openOutput :
    OnDisk old { g with content := [], outputFd := some (disk.lastfd + 1) } (disk.perform .openOutput).2 where
  apart fd mine other := by
    cases other
    have old' := (onDisk.input _ mine).1
    omega
  input fd mine := by
    obtain ⟨least, pos⟩ := onDisk.input fd mine
    refine ⟨Nat.le_succ_of_le least, ?_⟩
    exact (Function.update_of_ne (show fd ≠ disk.lastfd + 1 by omega) _ _).trans pos
  inputNew := onDisk.inputNew
  output fd mine := by
    cases mine
    exact ⟨Nat.le_refl _, Function.update_self _ _ _, rfl, rfl⟩
  outputNew := nofun

theorem OnDisk.read (mine : g.inputFd = some fd) (size : ℕ) :
    (disk.perform (.read fd size)).1 = .data ((disk.source.drop g.pos).take size) ∧
      (disk.perform (.read fd size)).2.source = disk.source ∧
      OnDisk old { g with pos := g.pos + ((disk.source.drop g.pos).take size).length }
        (disk.perform (.read fd size)).2 := by
  obtain ⟨least, pos⟩ := onDisk.input fd mine
  simp only [Disk.perform, pos]
  refine ⟨trivial, rfl, onDisk.apart, fun fd' mine' => ?_, fun new => ?_, fun fd' other => ?_, onDisk.outputNew⟩
  · cases mine.symm.trans mine'
    exact ⟨least, Function.update_self _ _ _⟩
  · cases mine.symm.trans new
  · obtain ⟨least', pos', rest⟩ := onDisk.output fd' other
    refine ⟨least', (Function.update_of_ne ?_ _ _).trans pos', rest⟩
    rintro rfl
    exact onDisk.apart _ mine other

/-- The output file is written at its end. -/
theorem OnDisk.write (mine : g.outputFd = some fd) (data : Data) :
    (disk.perform (.write fd data)).1 = .ok ∧ (disk.perform (.write fd data)).2.source = disk.source ∧
      OnDisk old { g with content := g.content ++ data } (disk.perform (.write fd data)).2 := by
  obtain ⟨least, pos, target, created⟩ := onDisk.output fd mine
  simp only [Disk.perform, pos]
  refine ⟨trivial, rfl, onDisk.apart, fun fd' other => ?_, onDisk.inputNew, fun fd' mine' => ?_, fun new => ?_⟩
  · obtain ⟨least', pos'⟩ := onDisk.input fd' other
    refine ⟨least', (Function.update_of_ne ?_ _ _).trans pos'⟩
    rintro rfl
    exact onDisk.apart _ other mine
  · cases mine.symm.trans mine'
    refine ⟨least, ?_, ?_, created⟩
    · rw [List.length_append]
      exact Function.update_self _ _ _
    · simp [Disk.seek, target]
  · cases mine.symm.trans new

end

end

/-- What was read follows what was handed over. -/
theorem take_chunk (source : Data) (pos size : ℕ) :
    source.take pos ++ (source.drop pos).take size = source.take (pos + ((source.drop pos).take size).length) := by
  rw [List.take_add]
  congr 1
  exact List.prefix_iff_eq_take.mp (List.take_prefix _ _)

/-- A short read is one up to the end. -/
theorem short_chunk {pos size : ℕ} (short : ((source.drop pos).take size).length < size) :
    source.length ≤ pos + ((source.drop pos).take size).length := by
  rw [List.length_take, List.length_drop] at short ⊢
  omega

/-! ### The two chains -/

/-- Where the input is, by its operation that is active. -/
def InputAt (source : Data) (g : Progress) (input : Input) : Option Work → Prop
  | none => g.inputFd = some input.fd
  | some ⟨_, .openInput, none⟩ | some ⟨_, .openInput, some (.failed _)⟩ => g.held = [] ∧ g.inputFd = none
  | some ⟨_, .openInput, some (.opened fd)⟩ => g.held = [] ∧ g.inputFd = some fd
  | some ⟨_, .read fd size, none⟩ =>
    g.held = [] ∧ g.inputFd = some fd ∧ fd = input.fd ∧ size = input.chunkSize
  | some ⟨_, .read fd _, some (.data data)⟩ =>
    g.held = data ∧ g.inputFd = some fd ∧ fd = input.fd ∧ (data.length < input.chunkSize → source.length ≤ g.pos)
  | some ⟨_, .read _ _, some (.failed _)⟩ => g.held = []
  | _ => False

/-- Where the output is, by its operation that is active. -/
def OutputAt (g : Progress) (output : Output) : Option Work → Prop
  | none => g.outputFd = some output.fd ∧ output.opened = true ∧ g.content = g.written.flatten
  | some ⟨_, .openOutput, none⟩ | some ⟨_, .openOutput, some (.failed _)⟩ =>
    g.outputFd = none ∧ output.opened = false ∧ g.written = []
  | some ⟨_, .openOutput, some (.opened fd)⟩ =>
    g.outputFd = some fd ∧ output.opened = false ∧ g.written = [] ∧ g.content = []
  | some ⟨_, .write fd data, none⟩ =>
    g.outputFd = some fd ∧ fd = output.fd ∧ output.opened = true ∧ output.bufs.head? = some data ∧
      g.content = g.written.flatten
  | some ⟨_, .write fd data, some .ok⟩ =>
    g.outputFd = some fd ∧ fd = output.fd ∧ output.opened = true ∧ output.bufs.head? = some data ∧
      g.content = g.written.flatten ++ data
  | some ⟨_, .write _ _, some (.failed _)⟩ => output.opened = true ∧ output.bufs ≠ []
  | _ => False

/-- The operation that a request stands for. -/
def Env.work (env : Env) (fsreq : Option ℕ) : Option Work := fsreq.bind env.active

/-- The active operations are those of the two ends. -/
structure Known (env : Env) : Prop where
  fresh : env.Fresh
  issued : ∀ id, env.input.fsreq = some id ∨ env.output.fsreq = some id → id ≤ env.lastid
  apart : ∀ id, env.input.fsreq = some id → env.output.fsreq ≠ some id
  only : ∀ id work, env.active id = some work → env.input.fsreq = some id ∨ env.output.fsreq = some id

structure Copying (source : Data) (old : Option Data) (s : World Env) (g : Progress) : Prop where
  same : s.env.disk.source = source
  content : g.written.flatten ++ s.env.output.bufs.flatten ++ g.held = source.take g.pos
  nwrite : s.self.nwrite = g.written.length
  nread : s.self.nread = g.written.length + s.env.output.bufs.length
  eof : s.self.eof = true → g.written.flatten ++ s.env.output.bufs.flatten = source
  known : Known s.env
  disk : OnDisk old g s.env.disk
  input : InputAt source g s.env.input (s.env.work s.env.input.fsreq)
  output : OutputAt g s.env.output (s.env.work s.env.output.fsreq)

/-- Between two turns of the loop. -/
def Copies (source : Data) (old : Option Data) (s : World Env) : Prop :=
  s.self.started = true → ∃ g, Copying source old s g ∧ (s.env.work s.env.input.fsreq = none → g.held = [])

section

variable {g : Progress} {fsreq : Option ℕ} {rest : List Data} {output : Output} {front : Data}

theorem work_queued (known : Known env) (op : Op) (mine : fsreq = env.input.fsreq ∨ fsreq = env.output.fsreq) :
    (env.queued op).work fsreq = env.work fsreq := by
  cases fsreq with
  | none => rfl
  | some id =>
    have issued := known.issued id (mine.imp Eq.symm Eq.symm)
    exact (active_queued known.fresh op id).trans (if_neg (by omega))

theorem work_new (fresh : env.Fresh) (op : Op) :
    (env.queued op).work (some (env.lastid + 1)) = some ⟨env.lastid + 1, op, none⟩ :=
  (active_queued fresh op _).trans (if_pos rfl)

private theorem fresh_queued (fresh : env.Fresh) (op : Op) : (env.queued op).Fresh := by
  intro id later
  have later : env.lastid + 1 < id := later
  rw [active_queued fresh, if_neg (by omega)]
  exact fresh id (by omega)

/-- The state in which the next read was queued. -/
def Env.reading (env : Env) : Env :=
  { env.queued (.read env.input.fd env.input.chunkSize) with
    input := { env.input with fsreq := some (env.lastid + 1) } }

/-- The state in which the next write was queued. -/
def Env.writing (front : Data) (env : Env) : Env :=
  { env.queued (.write env.output.fd front) with
    output := { env.output with fsreq := some (env.lastid + 1) } }

theorem wp_doRead {Q : Outcome Unit → World Env → Prop} :
    wp doRead Q s ↔ Q (.done ()) { s with env := s.env.reading } := Iff.rfl

theorem wp_doWrite {Q : Outcome Unit → World Env → Prop} (bufs : s.env.output.bufs = front :: rest) :
    wp doWrite Q s ↔ Q (.done ()) { s with env := s.env.writing front } := by
  simp only [doWrite]
  rw [wp_get_bind, bufs]
  exact Iff.rfl

private theorem known_reading (known : Known env) (idle : env.work env.input.fsreq = none) : Known env.reading where
  fresh := fresh_queued known.fresh _
  issued id mine := by
    rcases mine with mine | mine
    · cases mine
      exact Nat.le_refl _
    · exact Nat.le_succ_of_le (known.issued id (.inr mine))
  apart id mine other := by
    cases mine
    have issued := known.issued _ (.inr other)
    omega
  only id work active := by
    rcases eq_or_ne id (env.lastid + 1) with rfl | other
    · exact .inl rfl
    · have active : env.active id = some work :=
        ((active_queued known.fresh _ id).trans (if_neg other)).symm.trans active
      rcases known.only id work active with mine | mine
      · rw [mine] at idle
        cases idle.symm.trans active
      · exact .inr mine

private theorem known_writing (known : Known env) (idle : env.work env.output.fsreq = none) (front : Data) :
    Known (env.writing front) where
  fresh := fresh_queued known.fresh _
  issued id mine := by
    rcases mine with mine | mine
    · exact Nat.le_succ_of_le (known.issued id (.inl mine))
    · cases mine
      exact Nat.le_refl _
  apart id mine other := by
    cases other
    have issued := known.issued _ (.inl mine)
    omega
  only id work active := by
    rcases eq_or_ne id (env.lastid + 1) with rfl | other
    · exact .inr rfl
    · have active : env.active id = some work :=
        ((active_queued known.fresh _ id).trans (if_neg other)).symm.trans active
      rcases known.only id work active with mine | mine
      · exact .inl mine
      · rw [mine] at idle
        cases idle.symm.trans active

theorem Copying.reading (copying : Copying source old s g) (idle : s.env.work s.env.input.fsreq = none)
    (emptied : g.held = []) : Copying source old { s with env := s.env.reading } g where
  same := copying.same
  content := copying.content
  nwrite := copying.nwrite
  nread := copying.nread
  eof := copying.eof
  known := known_reading copying.known idle
  disk := copying.disk
  input := by
    have input := copying.input
    rw [idle] at input
    change InputAt source g s.env.reading.input ((s.env.queued _).work (some (s.env.lastid + 1)))
    rw [work_new copying.known.fresh]
    exact ⟨emptied, input, rfl, rfl⟩
  output := by
    change OutputAt g s.env.output ((s.env.queued _).work s.env.output.fsreq)
    rw [work_queued copying.known _ (.inr rfl)]
    exact copying.output

theorem Copying.writing (copying : Copying source old s g) (idle : s.env.work s.env.output.fsreq = none)
    (bufs : s.env.output.bufs = front :: rest) : Copying source old { s with env := s.env.writing front } g where
  same := copying.same
  content := copying.content
  nwrite := copying.nwrite
  nread := copying.nread
  eof := copying.eof
  known := known_writing copying.known idle front
  disk := copying.disk
  input := by
    change InputAt source g s.env.input ((s.env.queued _).work s.env.input.fsreq)
    rw [work_queued copying.known _ (.inl rfl)]
    exact copying.input
  output := by
    have output := copying.output
    rw [idle] at output
    change OutputAt g (s.env.writing front).output ((s.env.queued _).work (some (s.env.lastid + 1)))
    rw [work_new copying.known.fresh]
    exact ⟨output.1, rfl, output.2.1, congrArg List.head? bufs, output.2.2⟩

/-! ### Chunks -/

/-- The state in which a chunk was given to the output. -/
def Env.pushed (data : Data) (env : Env) : Env :=
  { env with output :=
    { env.output with bufsz := env.output.bufsz + data.length, bufs := env.output.bufs ++ [data] } }

theorem OutputAt.push {work : Option Work} (stage : OutputAt g output work) (data : Data) (bufsz : ℕ) :
    OutputAt g { output with bufsz := bufsz, bufs := output.bufs ++ [data] } work := by
  have head {front : Data} (head : output.bufs.head? = some front) :
      (output.bufs ++ [data]).head? = some front := by
    rw [List.head?_append, head]
    rfl
  match work, stage with
  | none, stage => exact stage
  | some ⟨_, .openOutput, none⟩, stage => exact stage
  | some ⟨_, .openOutput, some (.failed _)⟩, stage => exact stage
  | some ⟨_, .openOutput, some (.opened _)⟩, stage => exact stage
  | some ⟨_, .write _ _, none⟩, stage => exact ⟨stage.1, stage.2.1, stage.2.2.1, head stage.2.2.2.1, stage.2.2.2.2⟩
  | some ⟨_, .write _ _, some .ok⟩, stage => exact ⟨stage.1, stage.2.1, stage.2.2.1, head stage.2.2.2.1, stage.2.2.2.2⟩
  | some ⟨_, .write _ _, some (.failed _)⟩, stage => exact ⟨stage.1, List.append_ne_nil_of_right_ne_nil _ nofun⟩

/-- An output that is open and has nothing to write does nothing. -/
theorem OutputAt.idle {work : Option Work} (stage : OutputAt g output work) (opened : output.opened = true)
    (empty : output.bufs = []) : work = none := by
  have closed (closed : output.opened = false) : False := Bool.false_ne_true (closed.symm.trans opened)
  have none' {front : Data} (head : output.bufs.head? = some front) : False := by
    rw [empty] at head
    cases head
  match work, stage with
  | none, _ => rfl
  | some ⟨_, .openOutput, none⟩, stage => exact (closed stage.2.1).elim
  | some ⟨_, .openOutput, some (.failed _)⟩, stage => exact (closed stage.2.1).elim
  | some ⟨_, .openOutput, some (.opened _)⟩, stage => exact (closed stage.2.1).elim
  | some ⟨_, .write _ _, none⟩, stage => exact (none' stage.2.2.2.1).elim
  | some ⟨_, .write _ _, some .ok⟩, stage => exact (none' stage.2.2.2.1).elim
  | some ⟨_, .write _ _, some (.failed _)⟩, stage => exact absurd empty stage.2

/-- What was read is handed over. -/
theorem Copying.push (copying : Copying source old s g) (idle : s.env.work s.env.input.fsreq = none) :
    Copying source old { s.onRead g.held none with env := s.env.pushed g.held } { g with held := [] } where
  same := copying.same
  content := by
    rw [← copying.content]
    simp [Env.pushed]
  nwrite := copying.nwrite
  nread := by
    change s.self.nread + 1 = g.written.length + (s.env.output.bufs ++ [g.held]).length
    rw [copying.nread, List.length_append, List.length_singleton, Nat.add_assoc]
  eof ended := by
    have before := copying.eof ended
    have content := copying.content
    rw [before] at content
    have nothing : g.held = [] := by
      have length := congrArg List.length content
      rw [List.length_append, List.length_take] at length
      exact List.length_eq_zero_iff.mp (by omega)
    change g.written.flatten ++ (s.env.output.bufs ++ [g.held]).flatten = source
    rw [nothing, List.flatten_append, ← List.append_assoc, before]
    simp
  known := ⟨copying.known.fresh, copying.known.issued, copying.known.apart, copying.known.only⟩
  disk := ⟨copying.disk.apart, copying.disk.input, copying.disk.inputNew, copying.disk.output, copying.disk.outputNew⟩
  input := by
    have input := copying.input
    change InputAt source _ s.env.input (s.env.work s.env.input.fsreq)
    rw [idle] at input ⊢
    exact input
  output := OutputAt.push copying.output _ _

/-! ### The thread pool -/

private theorem known_execute {work : Work} (known : Known env) (fail : Option Err) (active : env.active id = some work)
    (waits : work.result = none) : Known (env.execute id fail) := by
  obtain ⟨input, output, lastid, _⟩ := execute_frame env id fail
  have found := known.only id work active
  refine ⟨fun later after => ?_, ?_, ?_, fun other work' active' => ?_⟩
  · rw [lastid] at after
    have issued := known.issued id found
    rw [active_execute fail active waits, if_neg (by omega)]
    exact known.fresh later after
  · rw [input, output, lastid]
    exact known.issued
  · rw [input, output]
    exact known.apart
  · rw [input, output]
    rw [active_execute fail active waits] at active'
    split at active'
    · rename_i same
      rw [same]
      exact found
    · exact known.only other work' active'

theorem work_executed {work : Work} (fail : Option Err) (active : env.active id = some work)
    (waits : work.result = none) (mine : fsreq = some id) :
    (env.execute id fail).work fsreq = some { work with result := some (env.disk.execute work.op fail).1 } := by
  rw [mine]
  exact (active_execute fail active waits id).trans (if_pos rfl)

theorem work_execute_other {work : Work} (fail : Option Err) (active : env.active id = some work)
    (waits : work.result = none) (other : fsreq ≠ some id) : (env.execute id fail).work fsreq = env.work fsreq := by
  cases fsreq with
  | none => rfl
  | some id' => exact (active_execute fail active waits id').trans (if_neg fun same => other (congrArg some same))

/-- The parts of the state that an operation is performed on. -/
theorem Copying.executed {work : Work} {g' : Progress} (copying : Copying source old s g) (fail : Option Err)
    (active : s.env.active id = some work) (waits : work.result = none) (written : g'.written = g.written)
    (same : (s.env.disk.execute work.op fail).2.source = source)
    (content : g.written.flatten ++ s.env.output.bufs.flatten ++ g'.held = source.take g'.pos)
    (disk : OnDisk old g' (s.env.disk.execute work.op fail).2)
    (input : InputAt source g' s.env.input ((s.env.execute id fail).work s.env.input.fsreq))
    (output : OutputAt g' s.env.output ((s.env.execute id fail).work s.env.output.fsreq)) :
    Copying source old { s with env := s.env.execute id fail } g' := by
  obtain ⟨input', output', _, _⟩ := execute_frame s.env id fail
  have disk' := disk_execute fail active waits
  rw [← disk'] at same disk
  rw [← input'] at input
  rw [← output'] at output content
  rw [← written] at content
  refine ⟨same, content, ?_, ?_, ?_, known_execute copying.known fail active waits, disk, input, output⟩
  · rw [written]
    exact copying.nwrite
  · rw [written, output']
    exact copying.nread
  · rw [written, output']
    exact copying.eof

/-- The operation of the input is performed. -/
theorem Copying.executeInput {work : Work} (copying : Copying source old s g) (fail : Option Err)
    (active : s.env.active id = some work) (waits : work.result = none) (mine : s.env.input.fsreq = some id) :
    ∃ g', Copying source old { s with env := s.env.execute id fail } g' := by
  have stage := copying.input
  have other : s.env.output.fsreq ≠ some id := copying.known.apart id mine
  rw [mine] at stage
  change InputAt source g s.env.input (s.env.active id) at stage
  rw [active] at stage
  obtain ⟨wid, op, _⟩ := work
  cases waits
  cases op with
  | openInput =>
    cases fail with
    | some err =>
      refine ⟨g, copying.executed _ active rfl rfl copying.same copying.content copying.disk ?_ ?_⟩
      · rw [work_executed _ active rfl mine]
        exact stage
      · rw [work_execute_other _ active rfl other]
        exact copying.output
    | none =>
      refine ⟨{ g with inputFd := some (s.env.disk.lastfd + 1) }, copying.executed _ active rfl rfl copying.same
        copying.content (copying.disk.openInput stage.2) ?_ ?_⟩
      · rw [work_executed _ active rfl mine]
        exact ⟨stage.1, rfl⟩
      · rw [work_execute_other _ active rfl other]
        exact copying.output
  | read fd size =>
    obtain ⟨emptied, opened, here, whole⟩ := stage
    cases fail with
    | some err =>
      refine ⟨g, copying.executed _ active rfl rfl copying.same copying.content copying.disk ?_ ?_⟩
      · rw [work_executed _ active rfl mine]
        exact emptied
      · rw [work_execute_other _ active rfl other]
        exact copying.output
    | none =>
      have content := copying.content
      obtain ⟨result, source', disk⟩ := copying.disk.read opened size
      rw [emptied, List.append_nil] at content
      rw [copying.same] at result source' disk
      refine ⟨{ g with pos := g.pos + ((source.drop g.pos).take size).length, held := (source.drop g.pos).take size },
        copying.executed _ active rfl rfl source' ?_
          { disk with } ?_ ?_⟩
      · rw [content]
        exact take_chunk source g.pos size
      · rw [work_executed _ active rfl mine]
        change InputAt source _ _ (some ⟨_, _, some (s.env.disk.perform (.read fd size)).1⟩)
        rw [result]
        refine ⟨rfl, opened, here, fun short => ?_⟩
        rw [← whole] at short
        exact short_chunk short
      · rw [work_execute_other _ active rfl other]
        exact copying.output
  | _ => exact stage.elim

/-- The operation of the output is performed. -/
theorem Copying.executeOutput {work : Work} (copying : Copying source old s g) (fail : Option Err)
    (active : s.env.active id = some work) (waits : work.result = none) (mine : s.env.output.fsreq = some id) :
    ∃ g', g'.held = g.held ∧ Copying source old { s with env := s.env.execute id fail } g' := by
  have stage := copying.output
  have other : s.env.input.fsreq ≠ some id := fun input => copying.known.apart id input mine
  rw [mine] at stage
  change OutputAt g s.env.output (s.env.active id) at stage
  rw [active] at stage
  obtain ⟨wid, op, _⟩ := work
  cases waits
  cases op with
  | openOutput =>
    cases fail with
    | some err =>
      refine ⟨g, rfl, copying.executed _ active rfl rfl copying.same copying.content copying.disk ?_ ?_⟩
      · rw [work_execute_other _ active rfl other]
        exact copying.input
      · rw [work_executed _ active rfl mine]
        exact stage
    | none =>
      refine ⟨{ g with content := [], outputFd := some (s.env.disk.lastfd + 1) }, rfl,
        copying.executed _ active rfl rfl copying.same copying.content copying.disk.openOutput ?_ ?_⟩
      · rw [work_execute_other _ active rfl other]
        exact copying.input
      · rw [work_executed _ active rfl mine]
        exact ⟨rfl, stage.2.1, stage.2.2, rfl⟩
  | write fd data =>
    obtain ⟨opened, here, open', front, content⟩ := stage
    cases fail with
    | some err =>
      refine ⟨g, rfl, copying.executed _ active rfl rfl copying.same copying.content copying.disk ?_ ?_⟩
      · rw [work_execute_other _ active rfl other]
        exact copying.input
      · rw [work_executed _ active rfl mine]
        refine ⟨open', fun empty => ?_⟩
        rw [empty] at front
        cases front
    | none =>
      obtain ⟨result, source', disk⟩ := copying.disk.write opened data
      rw [copying.same] at source'
      refine ⟨{ g with content := g.content ++ data }, rfl,
        copying.executed _ active rfl rfl source' copying.content disk ?_ ?_⟩
      · rw [work_execute_other _ active rfl other]
        exact copying.input
      · rw [work_executed _ active rfl mine]
        change OutputAt _ _ (some ⟨_, _, some (s.env.disk.perform (.write fd data)).1⟩)
        rw [result]
        exact ⟨opened, here, open', front, congrArg (· ++ data) content⟩
  | _ => exact stage.elim

/-! ### The loop -/

theorem work_dropped (mine : fsreq = some id) : (env.drop id).work fsreq = none := by
  rw [mine]
  exact (active_drop env id id).trans (if_pos rfl)

theorem work_drop_other (other : fsreq ≠ some id) : (env.drop id).work fsreq = env.work fsreq := by
  cases fsreq with
  | none => rfl
  | some id' => exact (active_drop env id id').trans (if_neg fun same => other (congrArg some same))

theorem known_drop (known : Known env) (id : ℕ) : Known (env.drop id) where
  fresh later after := by
    rw [active_drop]
    split
    · rfl
    · exact known.fresh later after
  issued := known.issued
  apart := known.apart
  only other work active := by
    rw [active_drop] at active
    split at active
    · cases active
    · exact known.only other work active

/-- The operation of the input is over. -/
theorem Copying.dropInput (copying : Copying source old s g) (mine : s.env.input.fsreq = some id) {input : Input}
    (fsreq : input.fsreq = s.env.input.fsreq) (opened : g.inputFd = some input.fd) :
    Copying source old { s with env := { s.env.drop id with input := input } } g where
  same := copying.same
  content := copying.content
  nwrite := copying.nwrite
  nread := copying.nread
  eof := copying.eof
  known := by
    have known := known_drop copying.known id
    refine ⟨known.fresh, ?_, ?_, ?_⟩
    · change ∀ id, input.fsreq = some id ∨ _ → _
      rw [fsreq]
      exact known.issued
    · change ∀ id, input.fsreq = some id → _
      rw [fsreq]
      exact known.apart
    · change ∀ id work, _ → input.fsreq = some id ∨ _
      rw [fsreq]
      exact known.only
  disk := copying.disk
  input := by
    change InputAt source g input ((s.env.drop id).work input.fsreq)
    rw [work_dropped (fsreq.trans mine)]
    exact opened
  output := by
    change OutputAt g s.env.output ((s.env.drop id).work s.env.output.fsreq)
    rw [work_drop_other (copying.known.apart id mine)]
    exact copying.output

/-- The operation of the output is over. -/
theorem Copying.dropOutput (copying : Copying source old s g) (mine : s.env.output.fsreq = some id)
    (fsreq : output.fsreq = s.env.output.fsreq) (bufs : output.bufs = s.env.output.bufs)
    (stage : OutputAt g output none) :
    Copying source old { s with env := { s.env.drop id with output := output } } g where
  same := copying.same
  content := by
    change g.written.flatten ++ output.bufs.flatten ++ g.held = _
    rw [bufs]
    exact copying.content
  nwrite := copying.nwrite
  nread := by
    change s.self.nread = g.written.length + output.bufs.length
    rw [bufs]
    exact copying.nread
  eof := by
    change _ → g.written.flatten ++ output.bufs.flatten = _
    rw [bufs]
    exact copying.eof
  known := by
    have known := known_drop copying.known id
    refine ⟨known.fresh, ?_, ?_, ?_⟩
    · change ∀ id, _ ∨ output.fsreq = some id → _
      rw [fsreq]
      exact known.issued
    · change ∀ id, _ → output.fsreq ≠ some id
      rw [fsreq]
      exact known.apart
    · change ∀ id work, _ → _ ∨ output.fsreq = some id
      rw [fsreq]
      exact known.only
  disk := copying.disk
  input := by
    change InputAt source g s.env.input ((s.env.drop id).work s.env.input.fsreq)
    rw [work_drop_other fun input => copying.known.apart id input mine]
    exact copying.input
  output := by
    change OutputAt g output ((s.env.drop id).work output.fsreq)
    rw [work_dropped (fsreq.trans mine)]
    exact stage

/-- The operation of the output is over, and its chunk is acknowledged. -/
theorem Copying.pop (copying : Copying source old s g) (mine : s.env.output.fsreq = some id)
    (bufs : s.env.output.bufs = front :: rest)
    (stage : OutputAt { g with written := g.written ++ [front] } s.env.output none) (bufsz : ℕ) :
    Copying source old (World.onWrite none { s with env := { s.env.drop id with output :=
      { s.env.output with bufs := rest, bufsz := bufsz } } }) { g with written := g.written ++ [front] } where
  same := copying.same
  content := by
    rw [← copying.content, bufs]
    simp [World.onWrite, World.setSelf, World.log]
  nwrite := by
    change s.self.nwrite + 1 = (g.written ++ [front]).length
    rw [copying.nwrite, List.length_append, List.length_singleton]
  nread := by
    change s.self.nread = (g.written ++ [front]).length + rest.length
    rw [copying.nread, bufs, List.length_append, List.length_singleton, List.length_cons]
    omega
  eof ended := by
    rw [← copying.eof ended, bufs]
    simp [World.onWrite, World.setSelf, World.log]
  known :=
    have known := known_drop copying.known id
    { known with }
  disk := ⟨copying.disk.apart, copying.disk.input, copying.disk.inputNew, copying.disk.output, copying.disk.outputNew⟩
  input := by
    change InputAt source _ s.env.input ((s.env.drop id).work s.env.input.fsreq)
    rw [work_drop_other fun input => copying.known.apart id input mine]
    exact copying.input
  output := by
    change OutputAt _ _ ((s.env.drop id).work s.env.output.fsreq)
    rw [work_dropped mine]
    exact stage

end

end UniEvent.Streamer.Files
