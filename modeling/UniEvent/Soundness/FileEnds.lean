import Mathlib.Data.List.Nodup
import UniEvent.Proofs.FileInput
import UniEvent.Proofs.FileOutput

/-! # Files are quiet after `stop`, and written in order

A request that the backend does not give back has its callback after `stop`, and then `FileInput` and `FileOutput`
go on as if they had not been stopped. The same happens to a callback whose listener stops the object, and to a
canceled write that is not the last one. Without these, nothing happens after `stop`.

If `write` is not called with an empty list from inside the callback of a write, every buffer is written once.
-/

namespace UniEvent.FileEnds

open Program Program.Exec Relation

variable {κ ω : Type}

/-- Nothing happens after `stop`, and every descriptor was closed once then. -/
def Quiet (s : World κ ω) : Prop :=
  Along QuietAt s.trace ∧ (∀ fd, (closes s.trace).count fd ≤ 1) ∧
    (quiet s.trace = true → ∀ fd ∈ opens s.trace, (closes s.trace).count fd = 1)

theorem Base.quiet {s : World κ ω} (base : Base s) : Quiet s := by
  have nodup : (closes s.trace ++ current s).Nodup := base.account.nodup_iff.mp base.nodup
  refine ⟨base.quietly, List.nodup_iff_count_le_one.mp (List.nodup_append.mp nodup).1, fun silent fd member => ?_⟩
  have account := base.account
  rw [current, (base.silent silent).2.1, if_neg Bool.false_ne_true, List.append_nil] at account
  rw [← account.count_eq fd]
  exact List.count_eq_one_of_mem base.nodup member

/-- With any listener, an object that is used as allowed is quiet after `stop`. -/
theorem turns_quiet : (∀ (chunkSize : ℕ) (owner : ω) (s : World Input ω),
      ReflTransGen (Turn (input ω) Input.Allowed) { self := { chunkSize }, owner } s → Quiet s) ∧
    ∀ (owner : ω) (s : World Output ω), ReflTransGen (Turn (output ω) Output.Allowed) { self := {}, owner } s →
      Quiet s :=
  ⟨fun _ _ _ path => (Input.turns_inv path).toBase.quiet, fun _ _ path => (Output.turns_inv path).toBase.quiet⟩

/-! ### Runs that are given -/

inductive Act (c : Class κ ω) where
  | call (call : c.Call)
  | complete (id : ℕ) (res : Result)

def act (c : Class κ ω) (e : Listener (World κ ω)) : Act c → World κ ω → World κ ω
  | .call call, s => (c.perform e call s).2
  | .complete id res, s => (complete (c.callback e) id res s).2

def run (c : Class κ ω) (e : Listener (World κ ω)) (acts : List (Act c)) (s : World κ ω) : World κ ω :=
  acts.foldl (fun s a => act c e a s) s

/-- Every method is called where it may be. -/
def Meets (c : Class κ ω) (allowed : c.Call → World κ ω → Prop) (e : Listener (World κ ω)) :
    List (Act c) → World κ ω → Prop
  | [], _ => True
  | .call call :: acts, s => allowed call s ∧ Meets c allowed e acts (act c e (.call call) s)
  | a :: acts, s => Meets c allowed e acts (act c e a s)

theorem run_turns {c : Class κ ω} {allowed : c.Call → World κ ω → Prop} {e : Listener (World κ ω)}
    (tied : Tied c allowed e) {acts : List (Act c)} {s : World κ ω} (meets : Meets c allowed e acts s) :
    ReflTransGen (Turn c allowed) s (run c e acts s) := by
  induction acts generalizing s with
  | nil => exact .refl
  | cons a acts ih =>
    cases a with
    | call call => exact .head (.call tied ⟨call, meets.1, rfl⟩) (ih meets.2)
    | complete id res => exact .head (.complete tied id res rfl) (ih meets)

/-- A listener that does nothing. -/
def still : Listener (World κ ω) where
  handleRead _ _ := pure ()
  handleEof := pure ()
  handleWrite _ := pure ()

theorem still_tied (c : Class κ ω) (allowed : c.Call → World κ ω → Prop) : Tied c allowed still :=
  .layer .spent ⟨fun _ _ => .pure _, .pure _, fun _ => .pure _⟩

/-- A full chunk is read, the next read is given back, and the object is started again. -/
def inputActs : List (Act (input Unit)) :=
  [.call .start, .complete 1 .opened, .complete 2 (.data [1, 2]), .call (.stop true), .call .start, .complete 4 .opened,
    .call (.stop true)]

/-- The last of two writes is given back. -/
def outputActs : List (Act (output Unit)) :=
  [.call .start, .call (.write [1]), .call (.write [2]), .complete 1 .opened, .complete 2 .ok, .call (.stop true)]

theorem inputActs_quiet :
    (opens (run (input Unit) still inputActs { self := { chunkSize := 2 }, owner := () }).trace = [2, 1] ∧
      Quiet (run (input Unit) still inputActs { self := { chunkSize := 2 }, owner := () })) ∧
    Quiet (run (output Unit) still outputActs { self := {}, owner := () }) := by
  refine ⟨⟨by decide +kernel, turns_quiet.1 2 () _ (run_turns (still_tied _ _) ?_)⟩,
    turns_quiet.2 () _ (run_turns (still_tied _ _) ?_)⟩
  · refine ⟨⟨rfl, rfl⟩, ⟨rfl, fun _ => rfl⟩, ⟨by decide +kernel, by decide +kernel⟩, ⟨rfl, fun _ => rfl⟩, trivial⟩
  · refine ⟨⟨rfl, rfl⟩, ⟨rfl, nofun⟩, ⟨rfl, nofun⟩, ⟨fun _ => rfl, by decide +kernel, nofun⟩, trivial⟩

/-- A listener that stops the object when it gets data or an error. -/
def stopsInput : Listener (World Input Unit) where
  handleRead _ _ := stop (Input.callback still) true
  handleEof := pure ()
  handleWrite _ := pure ()

def stopsOutput : Listener (World Output Unit) where
  handleRead _ _ := pure ()
  handleEof := pure ()
  handleWrite
    | none => pure ()
    | some _ => stop (Output.callback still) true

/-- The object goes on after `stop`: when the open is not given back, from inside the listener of a full chunk, after a
write that failed, and after a canceled write that was not the last one. In the first case the descriptor is never
closed. -/
theorem stopped_not_quiet :
    let refused := run (input Unit) still [.call .start, .call (.stop false), .complete 1 .opened]
      { self := { chunkSize := 2 }, owner := () }
    let inside := run (input Unit) stopsInput [.call .start, .complete 1 .opened, .complete 2 (.data [1, 2])]
      { self := { chunkSize := 2 }, owner := () }
    let failed := run (output Unit) stopsOutput
      [.call .start, .call (.write [1]), .call (.write [2]), .complete 1 .opened, .complete 2 (.failed (.other 28))]
      { self := {}, owner := () }
    let canceled := run (output Unit) still
      [.call .start, .call (.write [1]), .call (.write [2]), .call (.write [3]), .complete 1 .opened,
        .call (.stop true),
        .complete 3 .ok] { self := {}, owner := () }
    (quiet refused.trace = true ∧ opens refused.trace = [1] ∧ closes refused.trace = [] ∧ ¬ Along QuietAt refused.trace)
    ∧
      ¬ Along QuietAt inside.trace ∧ ¬ Along QuietAt failed.trace ∧ ¬ Along QuietAt canceled.trace := by
  decide +kernel

/-! ### The buffers of `FileOutput` -/

namespace Output

/-- With any listener, a `FileOutput` that is used as allowed writes one buffer at a time, in order, and none twice.
When it is open and has nothing to do, it has written all of them. -/
theorem turns_line {owner : ω} {s : World Output ω}
    (path : ReflTransGen (Turn (output ω) Allowed) { self := {}, owner } s) :
    outstanding s ≤ 1 ∧ transfers s.trace = (pushes s.trace).take (completed s.trace + outstanding s) ∧
      (s.opened = true → s.active = [] → s.inside = 0 → transfers s.trace = pushes s.trace) ∧
      s.self.bufsz = (((pushes s.trace).drop (completed s.trace)).map List.length).sum := by
  have inv := turns_inv path
  refine ⟨?_, inv.line.passed, fun opened none outside => ?_, ?_⟩
  · rcases inv.single with none | ⟨req, active, -⟩
    · rw [outstanding_none none]
      exact Nat.zero_le 1
    · rw [outstanding, active]
      exact List.countP_le_length
  · have empty := inv.line.kept
    rw [inv.idle opened none outside] at empty
    have all : (pushes s.trace).length ≤ completed s.trace := List.drop_eq_nil_iff.mp empty.symm
    rw [inv.line.passed, List.take_of_length_le (all.trans (Nat.le_add_right _ _))]
  · rw [inv.size, ← inv.line.kept]

def orderedActs : List (Act (output Unit)) :=
  [.call (.write [1]), .call .start, .complete 1 .opened, .call (.write [2, 3]), .complete 2 .ok, .complete 3 .ok]

theorem orderedActs_line :
    let s := run (output Unit) still orderedActs { self := {}, owner := () }
    Meets (output Unit) Allowed still orderedActs { self := {}, owner := () } ∧ transfers s.trace = [[1], [2, 3]] ∧
      outstanding s ≤ 1 := by
  intro s
  have meets : Meets (output Unit) Allowed still orderedActs { self := {}, owner := () } :=
    ⟨⟨rfl, nofun⟩, ⟨rfl, rfl⟩, ⟨rfl, nofun⟩, trivial⟩
  exact ⟨meets, by decide +kernel, (turns_line (run_turns (still_tied _ _) meets)).1⟩

/-- A listener that writes once more when the first write is completed. -/
def writesAgain : Listener (World Output Bool) where
  handleRead _ _ := pure ()
  handleEof := pure ()
  handleWrite _ := do
    let s ← get
    when (s.owner = false) (do
      modify fun s => { s with owner := true }
      write [2])

/-- A buffer that is written from inside the callback of the last write is written twice. -/
theorem writesAgain_twice :
    let s := run (output Bool) writesAgain [.call .start, .call (.write [1]), .complete 1 .opened, .complete 2 .ok]
      { self := {}, owner := false }
    pushes s.trace = [[1], [2]] ∧ transfers s.trace = [[1], [2], [2]] ∧ outstanding s = 2 := by
  decide +kernel

end Output

end UniEvent.FileEnds
