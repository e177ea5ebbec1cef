import UniEvent.Model.Loop
import UniEvent.Program.Log

/-! # Exceptions and the event loop

A callback that throws stops the loop at the end of the iteration, and `run` throws what was thrown last. Runs do not
nest, and what is thrown outside of a run waits for the end of the next one.
-/

namespace UniEvent.Loop

open Program

/-- The last exception that has left a callback since a run has thrown one. -/
def waiting : List Event → Option Exception
  | [] | .runEnded (some _) :: _ => none
  | .callbackEnded (some exc) :: _ => some exc
  | .enter :: before | .iterate :: before | .stop :: before | .callbackEnded none :: before
  | .runEnded none :: before => waiting before

def inside : List Event → Bool
  | [] | .runEnded _ :: _ => false
  | .enter :: _ => true
  | .iterate :: before | .stop :: before | .callbackEnded _ :: before => inside before

/-- Nothing has stopped the loop since it was entered. -/
def unstopped : List Event → Bool
  | .enter :: _ => true
  | .iterate :: before | .callbackEnded none :: before => unstopped before
  | [] | .stop :: _ | .callbackEnded (some _) :: _ | .runEnded _ :: _ => false

/-- Runs do not nest, a loop that was stopped starts no iteration, and `run` throws what waits, or returns if nothing
does. -/
def RunAt : Event → List Event → Prop
  | .enter, before => inside before = false
  | .iterate, before => unstopped before = true
  | .runEnded exc, before => inside before = true ∧ waiting before = exc
  | .stop, _ | .callbackEnded _, _ => True

structure Tracked (s : World) : Prop where
  along : Along RunAt s.trace
  running : s.running = inside s.trace
  exception : s.exception = waiting s.trace
  stopFlag : s.running = true → s.stopFlag = false → unstopped s.trace = true

variable {s t u : World}

/-- The loop is in a run after a call if it was before. -/
def Stays (s t : World) : Prop := Tracked t ∧ t.running = s.running

theorem Tracked.stop (tracked : Tracked s) : Tracked s.stop :=
  ⟨⟨trivial, tracked.along⟩, tracked.running, tracked.exception, fun _ clear => by cases clear⟩

theorem Tracked.enter (tracked : Tracked s) (outside : s.running = false) : Tracked s.enter :=
  ⟨⟨tracked.running.symm.trans outside, tracked.along⟩, rfl, tracked.exception, fun _ _ => rfl⟩

theorem Tracked.iterate (tracked : Tracked s) (running : s.running = true) (unstopped : s.stopFlag = false) :
    Tracked s.iterate :=
  { tracked with along := ⟨tracked.stopFlag running unstopped, tracked.along⟩ }

/-- The caller of `run` gets what waits. -/
theorem Tracked.leave (tracked : Tracked s) (running : s.running = true) :
    s.leave.1 = waiting s.trace ∧ Tracked (record .runEnded s.leave).2 ∧
      (record .runEnded s.leave).2.running = false := by
  have inside := tracked.running.symm.trans running
  unfold World.leave
  split
  · next none =>
    have waits := tracked.exception.symm.trans none
    exact ⟨waits.symm,
      ⟨⟨⟨inside, waits⟩, tracked.along⟩, rfl, none.trans waits.symm, fun running => by cases running⟩, rfl⟩
  · next exc found =>
    have waits := tracked.exception.symm.trans found
    exact ⟨waits.symm, ⟨⟨⟨inside, waits⟩, tracked.along⟩, rfl, rfl, fun running => by cases running⟩, rfl⟩

/-- What leaves a callback is kept and stops the loop. -/
theorem Stays.ltry {call : Option Exception × World} (kept : Stays s call.2) :
    Stays s (ltry (record .callbackEnded call)) := by
  obtain ⟨exc, t⟩ := call
  obtain ⟨tracked, same⟩ := kept
  cases exc with
  | none => exact ⟨{ tracked with along := ⟨trivial, tracked.along⟩ }, same⟩
  | some exc => exact ⟨⟨⟨trivial, tracked.along⟩, tracked.running, rfl, fun _ clear => by cases clear⟩, same⟩

theorem Stays.trans (first : Stays s t) (second : Stays t u) : Stays s u := ⟨second.1, second.2.trans first.2⟩

mutual

theorem Code.exec_stays : ∀ (code : Code) (s : World), Tracked s → Stays s (code.exec s).2
  | .ret, s, tracked => ⟨tracked, rfl⟩
  | .throw id, s, tracked => ⟨tracked, rfl⟩
  | .stop rest, s, tracked => rest.exec_stays s.stop tracked.stop
  | .run poll rest, s, tracked => by
    rw [Code.exec]
    split
    · exact ⟨tracked, rfl⟩
    · next outside =>
      have outside := Bool.eq_false_iff.mpr outside
      obtain ⟨after, running⟩ := poll.exec_stays s.enter (tracked.enter outside) rfl
      obtain ⟨-, left, idle⟩ := after.leave running
      have ran : Stays s (record .runEnded (poll.exec s.enter).leave).2 := ⟨left, idle.trans outside.symm⟩
      split
      · next same =>
        rw [same] at ran
        exact ran.trans (rest.exec_stays _ ran.1)
      · next same =>
        rw [same] at ran
        exact ran
  | .complete callback rest, s, tracked => by
    have first := (callback.exec_stays s tracked).ltry
    exact first.trans (rest.exec_stays _ first.1)
  | .attempt body rest, s, tracked => by
    have first := body.exec_stays s tracked
    exact first.trans (rest.exec_stays _ first.1)

theorem Poll.exec_stays : ∀ (poll : Poll) (s : World), Tracked s → s.running = true → Stays s (poll.exec s)
  | .done, s, tracked, _ => ⟨tracked, rfl⟩
  | .event callback rest, s, tracked, running => by
    have first := (callback.exec_stays s tracked).ltry
    exact first.trans (rest.exec_stays _ first.1 (first.2.trans running))
  | .turn rest, s, tracked, running => by
    rw [Poll.exec]
    split
    · exact ⟨tracked, rfl⟩
    · next unstopped =>
      exact rest.exec_stays s.iterate (tracked.iterate running (Bool.eq_false_iff.mpr unstopped)) running

end

/-- What the caller of `run` gets. -/
theorem Tracked.run (tracked : Tracked s) (outside : s.running = false) (poll : Poll) :
    ((Code.run poll .ret).exec s).1 = waiting (poll.exec s.enter).trace := by
  obtain ⟨after, running⟩ := poll.exec_stays s.enter (tracked.enter outside) rfl
  obtain ⟨given, -⟩ := after.leave running
  have call : (record .runEnded (poll.exec s.enter).leave).1 = waiting (poll.exec s.enter).trace := given
  rw [Code.exec, if_neg (Bool.eq_false_iff.mp outside), ← call]
  split
  · next same => rw [same]; rfl
  · next same => rw [same]

/-- After every program, whatever libuv calls meanwhile, the caller of `run` gets the last exception that has left a
callback since a run has thrown one, and nothing if there is none. So it was in every run of the program. Besides, a
loop that was stopped or whose callback has thrown starts no iteration more, and runs do not nest. -/
theorem exec_rethrows (code : Code) (poll : Poll) :
    ((Code.run poll .ret).exec (code.exec {}).2).1 = waiting (poll.exec (code.exec {}).2.enter).trace ∧
      Along RunAt (code.exec {}).2.trace ∧ (code.exec {}).2.running = false := by
  obtain ⟨tracked, running⟩ := code.exec_stays {} ⟨trivial, rfl, rfl, fun running => by cases running⟩
  exact ⟨tracked.run running poll, tracked.along, running⟩

/-- Of two exceptions in one iteration the first is lost. -/
example : (Code.run (.event (.throw 1) (.event (.throw 2) (.turn .done))) .ret).exec {} =
    (some (.user 2), { trace := [.runEnded (some (.user 2)), .callbackEnded (some (.user 2)),
      .callbackEnded (some (.user 1)), .enter] }) := rfl

end UniEvent.Loop
