import UniEvent.Soundness.StreamFlags

/-! # What the flags say about a shutdown

`set_shutdown` sets `SHUT` whatever the result, so after a shutdown that failed, was canceled or timed out
`is_shut_down()` holds of a stream that is still connected for writing. And `SHUT` is only cleared by a reset: a stream
that is connected again without one is shut down from the start. Without these, `is_shut_down()` means that a shutdown
of the current connection has succeeded, and `shutting_down()` always means that one is in the backend.
-/

namespace UniEvent.StreamOpen

open Flags

/-- A connection with what has happened to its shutdowns. -/
structure Line extends Connection where
  /-- A shutdown was handed to the backend, and none has finished since. -/
  handed : Bool := false
  /-- A shutdown of the current connection has completed successfully. -/
  ended : Bool := false
deriving DecidableEq, Repr

/-- The step calls `set_connect_result(true)`. -/
def Connection.connects (s : Connection) : Step → Bool
  | .tcpOpen opened peer _ => opened.isNone && peer
  | .pipeOpen mode _ _ => decide (mode ≠ 0)
  | .finalize place filtered _ =>
    match s.due[place]? with
    | none => false
    | some err => (err.or filtered).isNone
  | _ => false

namespace Line

def step (s : Line) (step : Step) : Line where
  toConnection := s.toConnection.step step
  handed :=
    match step with
    | .shutdown => true
    | .shutdownEvent _ => false
    | _ => s.handed
  ended :=
    match step with
    | .shutdownEvent err => s.ended || err.isNone
    | .reset | .clear => false
    | _ => s.ended && !s.connects step

def run (steps : List Step) (s : Line) : Line := steps.foldl step s

/-- Shutdowns succeed, and a stream that is shut down is reset before it is connected again. -/
def Allowed (s : Line) : Step → Prop
  | .shutdownEvent err => err = none
  | step => s.connects step = true → s.flags.shut = false

instance (s : Line) (step : Step) : Decidable (s.Allowed step) := by
  apply Step.casesOn (motive := fun step => Decidable (s.Allowed step)) <;> intros <;> unfold Allowed <;> infer_instance

/-- `is_shut_down()` and `shutting_down()` tell the truth. -/
structure Honest (s : Line) : Prop where
  shut : s.flags.shut = true → s.ended = true ∧ s.flags.outConnected = false
  shutting : s.flags.shutting = true → s.handed = true

end Line

/-! ### What the setters do to the flags of a shutdown -/

/-- Neither flag of a shutdown is touched. -/
structure Spares (f g : Flags) : Prop where
  shut : g.shut = f.shut
  shutting : g.shutting = f.shutting

private theorem readStart_spares (answer : Option Err) (f : Flags) : Spares f (f.readStart answer).2 := by
  unfold readStart
  split
  · exact ⟨rfl, rfl⟩
  · split
    · exact ⟨rfl, rfl⟩
    · exact ⟨rfl, rfl⟩

theorem setConnectResult_spares (ok : Bool) (answer : Option Err) (f : Flags) :
    Spares f (f.setConnectResult ok answer).2 := by
  unfold setConnectResult
  dsimp only
  split
  · split
    · have same := readStart_spares answer
        { f with connecting := false, inConnected := true, outConnected := true, established := true }
      exact ⟨same.shut, same.shutting⟩
    · exact ⟨rfl, rfl⟩
  · exact ⟨rfl, rfl⟩

theorem clearOutConnected_spares (f : Flags) : Spares f f.clearOutConnected := by
  unfold Flags.clearOutConnected
  dsimp only
  split
  · exact ⟨rfl, rfl⟩
  · exact ⟨rfl, rfl⟩

private theorem clearOutConnected_closed (f : Flags) : f.clearOutConnected.outConnected = false := by
  unfold Flags.clearOutConnected
  dsimp only
  split
  · rfl
  · rfl

private theorem clearInConnected_spares (f : Flags) :
    Spares f f.clearInConnected ∧ f.clearInConnected.outConnected = f.outConnected := by
  unfold Flags.clearInConnected
  dsimp only
  split
  · exact ⟨⟨rfl, rfl⟩, rfl⟩
  · exact ⟨⟨rfl, rfl⟩, rfl⟩

theorem Spares.trans {f g k : Flags} (first : Spares f g) (second : Spares g k) : Spares f k :=
  ⟨second.shut.trans first.shut, second.shutting.trans first.shutting⟩

private theorem tcpOpen_spares (opened : Option Err) (peer : Bool) (answer : Option Err) (f : Flags) :
    Spares f (f.tcpOpen opened peer answer).2 := by
  unfold Flags.tcpOpen
  split
  · exact ⟨rfl, rfl⟩
  · split
    · exact setConnectResult_spares true answer f
    · exact ⟨rfl, rfl⟩

private theorem pipeOpen_spares (mode : Mode) (opened answer : Option Err) (f : Flags) :
    Spares f (f.pipeOpen mode opened answer).2 := by
  have stopped : Spares f (if mode &&& 1 = 0 then f.readStop else f) := by
    split
    · exact ⟨rfl, rfl⟩
    · exact ⟨rfl, rfl⟩
  have connected := stopped.trans (setConnectResult_spares true answer _)
  unfold Flags.pipeOpen
  split
  · change Spares f (if mode &&& 2 = 0 then _ else _)
    split
    · exact connected.trans (clearOutConnected_spares _)
    · exact connected
  · exact ⟨rfl, rfl⟩

/-! ### Runs -/

namespace Line

variable {s : Line}

/-- A step that spares the flags of a shutdown and opens nothing, or connects a stream that is not shut down. -/
theorem Honest.spare {step : Step} (honest : Honest s) (spares : Spares s.flags (s.toConnection.step step).flags)
    (handed : (s.step step).handed = s.handed) (ended : (s.step step).ended = (s.ended && !s.connects step))
    (allowed : s.connects step = true → s.flags.shut = false)
    (closed : s.connects step = false → (s.toConnection.step step).flags.outConnected = true →
      s.flags.outConnected = true) :
    Honest (s.step step) := by
  refine ⟨fun shut => ?_, fun shutting => ?_⟩
  · have before : s.flags.shut = true := spares.shut.symm.trans shut
    have other : s.connects step = false := by
      cases connects : s.connects step with
      | false => rfl
      | true => exact absurd (before.symm.trans (allowed connects)) nofun
    obtain ⟨done, output⟩ := honest.shut before
    refine ⟨by rw [ended, done, other]; rfl, ?_⟩
    cases still : (s.step step).flags.outConnected with
    | false => rfl
    | true => exact absurd (output.symm.trans (closed other still)) nofun
  · rw [handed]
    exact honest.shutting (spares.shutting.symm.trans shutting)

theorem Honest.step {step : Step} (honest : Honest s) (allowed : s.Allowed step) : Honest (s.step step) := by
  cases step with
  | tcpOpen opened peer answer =>
    refine honest.spare (tcpOpen_spares ..) rfl rfl allowed fun other => ?_
    cases opened with
    | some err => exact id
    | none =>
      cases peer with
      | false => exact id
      | true => cases other
  | pipeOpen mode opened answer =>
    refine honest.spare (pipeOpen_spares ..) rfl rfl allowed fun other => ?_
    obtain rfl : mode = 0 := by simpa [Connection.connects] using other
    exact id
  | finalize place filtered answer =>
    have spares : Spares s.flags (s.toConnection.step (.finalize place filtered answer)).flags := by
      simp only [Connection.step]
      split
      · exact ⟨rfl, rfl⟩
      · exact setConnectResult_spares _ answer s.flags
    refine honest.spare spares rfl rfl allowed fun other => ?_
    simp only [Connection.connects, Connection.step] at other ⊢
    split
    · exact id
    · rename_i err here
      rw [here] at other
      change (err.or filtered).isNone = false at other
      rw [other]
      exact id
  | listen | connect | readIgnore | readStop => exact honest.spare ⟨rfl, rfl⟩ rfl rfl allowed fun _ => id
  | accept err | connectEvent err =>
    cases err with
    | none => exact honest.spare ⟨rfl, rfl⟩ rfl rfl allowed fun _ => id
    | some err => exact honest.spare ⟨rfl, rfl⟩ rfl rfl allowed fun _ => id
  | brokenPipe =>
    refine honest.spare (clearOutConnected_spares _) rfl rfl allowed fun _ still => ?_
    exact absurd ((clearOutConnected_closed _).symm.trans still) (by rintro ⟨⟩)
  | eof =>
    have kept : Spares s.flags (s.toConnection.step .eof).flags ∧
        (s.toConnection.step .eof).flags.outConnected = s.flags.outConnected := by
      simp only [Connection.step]
      split
      · exact ⟨⟨rfl, rfl⟩, rfl⟩
      · exact clearInConnected_spares s.flags
    exact honest.spare kept.1 rfl rfl allowed fun _ still => kept.2.symm.trans still
  | shutdown =>
    refine ⟨fun shut => ?_, fun _ => rfl⟩
    obtain ⟨done, output⟩ := honest.shut shut
    exact ⟨by rw [Line.step, done]; rfl, output⟩
  | shutdownEvent err =>
    obtain rfl : err = none := allowed
    refine ⟨fun _ => ⟨Bool.or_true _, clearOutConnected_closed _⟩, fun shutting => ?_⟩
    have off := (clearOutConnected_spares { s.flags with shutting := false, shut := true }).shutting
    exact absurd (off.symm.trans shutting) (by rintro ⟨⟩)
  | reset | clear => exact ⟨(by rintro ⟨⟩), (by rintro ⟨⟩)⟩
  | readStart answer =>
    let f : Flags := { s.flags with dontRead := false, ignoreRead := false }
    have spares : Spares f (f.readStart answer).2 := readStart_spares answer f
    refine honest.spare ⟨spares.shut, spares.shutting⟩ rfl rfl allowed fun _ still => ?_
    exact (readStart_frame answer f).2.1.symm.trans still

/-- If shutdowns succeed and a stream that was shut down is reset before it is connected again, then
`is_shut_down()` means that a shutdown of this connection has succeeded and nothing can be written, and
`shutting_down()` that one is in the backend. -/
theorem run_honest (steps : List Step) (meets : Program.MeetsAll Line.step Allowed steps {}) :
    ((Line.run steps {}).flags.shut = true →
      (Line.run steps {}).ended = true ∧ (Line.run steps {}).flags.outConnected = false) ∧
    ((Line.run steps {}).flags.shutting = true → (Line.run steps {}).handed = true) := by
  have initial : Honest {} := ⟨nofun, nofun⟩
  have honest := meets.keeps (fun _ _ allowed honest => Honest.step honest allowed) initial
  exact ⟨honest.shut, honest.shutting⟩

/-- A stream is connected, shut down, reset, connected again, and another shutdown is in the backend. -/
def shutTwice : List Step :=
  [.connect, .connectEvent none, .finalize 0 none none, .shutdown, .shutdownEvent none, .eof, .reset,
   .connect, .connectEvent none, .finalize 0 none none, .shutdown]

theorem shutTwice_honest : (Line.run shutTwice {}).flags.shutting = true ∧ (Line.run shutTwice {}).handed = true :=
  ⟨by decide +kernel, (run_honest shutTwice (by decide +kernel)).2 (by decide +kernel)⟩

/-- A stream is connected, and a shutdown times out. -/
def timedOutSteps : List Step :=
  [.connect, .connectEvent none, .finalize 0 none none, .shutdown, .shutdownEvent (some .timedOut)]

/-- The same as turns of the loop. -/
def timedOutTurns : List Stream.Turn :=
  [{ depth := 9, task := .op (.connect 1 0) }, { depth := 9, task := .complete (.connect 1 0) none },
   { depth := 9, task := .op (.shutdown 2 1000) }, { depth := 9, task := .shutdownTimer (.shutdown 2 1000) }]

/-- The stream can still be written to, and is marked as shut down. -/
theorem timedOut_shut :
    (Line.run timedOutSteps {}).flags.shut = true ∧ (Line.run timedOutSteps {}).ended = false ∧
      (Line.run timedOutSteps {}).flags.outConnected = true ∧
      (Stream.run timedOutTurns Stream.initial).2.owner.flags = (Line.run timedOutSteps {}).flags.toFlags := by
  decide +kernel

end Line

end UniEvent.StreamOpen
