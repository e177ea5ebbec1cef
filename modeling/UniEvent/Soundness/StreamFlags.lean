import UniEvent.Model.StreamOpen
import UniEvent.Program.Machine

/-! # Connection flags

`Pipe::open` does not return when the backend fails to open, an `open` whose `read_start` fails has set the flags by
then, and a stream that is reset inside `on_establish` is marked as connected afterwards. Without these, the flags tell
the truth.
-/

namespace UniEvent.StreamOpen

open Flags Program

variable {s : Connection} {f : Flags} {opened : Option Err}

/-- A pipe is opened as connected only if the backend opens it, reading starts when a stream is opened, and a stream is
not reset between the backend's answer to an accept or a connect and its end. -/
def Allowed (s : Connection) : Step → Prop
  | .tcpOpen _ _ answer => answer = none
  | .pipeOpen mode opened answer => (opened = none ∨ mode = 0) ∧ answer = none
  | .reset | .clear => s.due = []
  | _ => True

instance (s : Connection) (step : Step) : Decidable (Allowed s step) := by
  apply Step.casesOn (motive := fun step => Decidable (Allowed s step)) <;> intros <;> unfold Allowed <;> infer_instance

/-- A direction that is connected is one of a stream that is established. -/
def Sound (f : Flags) : Prop := f.inConnected = true ∨ f.outConnected = true → f.established = true

private theorem sound_of_closed (input : f.inConnected = false) (output : f.outConnected = false) : Sound f := by
  rintro (open' | open')
  · exact absurd (input.symm.trans open') nofun
  · exact absurd (output.symm.trans open') nofun

structure Truthful (s : Connection) : Prop where
  sound : Sound s.flags
  established : s.flags.established = true → s.succeeded = true
  due : none ∈ s.due → s.succeeded = true

/-! ### What the setters do to the three flags -/

theorem readStart_frame (answer : Option Err) (f : Flags) :
    (f.readStart answer).2.inConnected = f.inConnected ∧ (f.readStart answer).2.outConnected = f.outConnected ∧
      (f.readStart answer).2.established = f.established := by
  unfold readStart
  split
  · exact ⟨rfl, rfl, rfl⟩
  · split
    · exact ⟨rfl, rfl, rfl⟩
    · exact ⟨rfl, rfl, rfl⟩

theorem Sound.readStart (sound : Sound f) (answer : Option Err) : Sound (f.readStart answer).2 := by
  obtain ⟨inConnected, outConnected, established⟩ := readStart_frame answer f
  rw [Sound, inConnected, outConnected, established]
  exact sound

private theorem setConnectResult_established (answer : Option Err) (f : Flags) :
    (f.setConnectResult true answer).2.established = true := by
  simp only [setConnectResult, if_true]
  split
  · exact (readStart_frame answer _).2.2
  · rfl

theorem Sound.setConnectResult (sound : Sound f) (ok : Bool) (answer : Option Err) :
    Sound (f.setConnectResult ok answer).2 := by
  cases ok with
  | false => exact sound
  | true => exact fun _ => setConnectResult_established answer f

theorem Sound.clearOutConnected (sound : Sound f) : Sound f.clearOutConnected := by
  unfold Flags.clearOutConnected
  dsimp only
  split
  · rename_i closed
    rintro (open' | open')
    · exact absurd (closed.symm.trans open') nofun
    · cases open'
  · rename_i open'
    exact fun _ => sound (.inl (by simpa using open'))

theorem Sound.clearInConnected (sound : Sound f) : Sound f.clearInConnected := by
  unfold Flags.clearInConnected
  dsimp only
  split
  · rename_i closed
    rintro (open' | open')
    · cases open'
    · exact absurd (closed.symm.trans open') nofun
  · rename_i open'
    exact fun _ => sound (.inr (by simpa using open'))

private theorem clearOutConnected_established (still : f.clearOutConnected.established = true) :
    f.established = true := by
  unfold clearOutConnected at still
  dsimp only at still
  split at still
  · cases still
  · exact still

private theorem clearInConnected_established (still : f.clearInConnected.established = true) :
    f.established = true := by
  unfold clearInConnected at still
  dsimp only at still
  split at still
  · cases still
  · exact still

/-! ### Runs -/

/-- A step that neither establishes the stream nor forgets what has succeeded. -/
theorem Truthful.keep (truthful : Truthful s) (sound : Sound f)
    (still : f.established = true → s.flags.established = true) : Truthful { s with flags := f } :=
  ⟨sound, fun established => truthful.established (still established), truthful.due⟩

/-- The answer of the backend to an accept or a connect. -/
theorem Truthful.answer (truthful : Truthful s) (err : Option Err) :
    Truthful ⟨if err = none then { f with established := true } else s.flags, s.due ++ [err],
      s.succeeded || err.isNone⟩ := by
  cases err with
  | none => exact ⟨fun _ => rfl, fun _ => Bool.or_true _, fun _ => Bool.or_true _⟩
  | some err =>
    refine ⟨truthful.sound, fun established => ?_, fun among => ?_⟩
    · change (s.succeeded || false) = true
      rw [Bool.or_false]
      exact truthful.established established
    · change (s.succeeded || false) = true
      rw [Bool.or_false]
      exact truthful.due ((List.mem_append.mp among).resolve_right (by simp))

theorem Truthful.open (truthful : Truthful s) (sound : Sound f) (known : opened = none ∨ f = s.flags) :
    Truthful { s with flags := f, succeeded := s.succeeded || opened.isNone } := by
  have more (before : s.succeeded = true) : (s.succeeded || opened.isNone) = true := by rw [before, Bool.true_or]
  refine ⟨sound, fun established => ?_, fun among => more (truthful.due among)⟩
  rcases known with rfl | rfl
  · exact Bool.or_true _
  · exact more (truthful.established established)

theorem Sound.pipeOpen (sound : Sound f) (mode : Mode) (opened answer : Option Err) :
    Sound (f.pipeOpen mode opened answer).2 := by
  have stopped : Sound (if mode &&& 1 = 0 then f.readStop else f) := by
    split
    · exact sound
    · exact sound
  unfold Flags.pipeOpen
  split
  · change Sound (if mode &&& 2 = 0 then _ else _)
    split
    · exact (stopped.setConnectResult true answer).clearOutConnected
    · exact stopped.setConnectResult true answer
  · exact sound

theorem Sound.tcpOpen (sound : Sound f) (opened : Option Err) (peer : Bool) (answer : Option Err) :
    Sound (f.tcpOpen opened peer answer).2 := by
  unfold Flags.tcpOpen
  split
  · exact sound
  · split
    · exact sound.setConnectResult true answer
    · exact sound

theorem Truthful.step {step : Step} (truthful : Truthful s) (allowed : Allowed s step) : Truthful (s.step step) := by
  have sound := truthful.sound
  cases step with
  | tcpOpen opened peer answer =>
    refine truthful.open (sound.tcpOpen opened peer answer) ?_
    cases opened with
    | none => exact .inl rfl
    | some err => exact .inr rfl
  | pipeOpen mode opened answer =>
    refine truthful.open (sound.pipeOpen mode opened answer) (allowed.1.imp id fun closed => ?_)
    rw [closed]
    rfl
  | listen | connect | shutdown | readIgnore | readStop => exact truthful.keep sound id
  | accept err => exact truthful.answer (f := { s.flags with connecting := true }) err
  | connectEvent err => exact truthful.answer (f := s.flags) err
  | finalize place filtered answer =>
    simp only [Connection.step]
    split
    · exact truthful
    · rename_i err here
      have erased (among : none ∈ s.due.eraseIdx place) : s.succeeded = true :=
        truthful.due (List.mem_of_mem_eraseIdx among)
      refine ⟨sound.setConnectResult _ answer, fun established => ?_, erased⟩
      cases err with
      | none => exact truthful.due (List.mem_of_getElem? here)
      | some err => exact truthful.established established
  | brokenPipe => exact truthful.keep sound.clearOutConnected clearOutConnected_established
  | eof =>
    simp only [Connection.step]
    split
    · exact truthful
    · exact truthful.keep sound.clearInConnected clearInConnected_established
  | shutdownEvent err =>
    cases err with
    | none => exact truthful.keep (Sound.clearOutConnected sound) clearOutConnected_established
    | some err => exact truthful.keep sound id
  | reset | clear =>
    refine ⟨sound_of_closed rfl rfl, nofun, fun among => ?_⟩
    · rw [show (s.step _).due = s.due from rfl, show s.due = [] from allowed] at among
      cases among
  | readStart answer =>
    let f : Flags := { s.flags with dontRead := false, ignoreRead := false }
    have sound : Sound f := sound
    refine truthful.keep (sound.readStart answer) fun established => ?_
    exact (readStart_frame answer f).2.2.symm.trans established

/-! ### Opening -/

private theorem setConnectResult_ok (ok : Bool) (f : Flags) : (f.setConnectResult ok none).1 = none := by
  simp only [setConnectResult]
  split
  · split
    · unfold readStart
      split
      · rfl
      · rfl
    · rfl
  · rfl

private theorem tcpOpen_error {peer : Bool} (failed : (f.tcpOpen opened peer none).1 ≠ none) :
    (f.tcpOpen opened peer none).2 = f := by
  unfold Flags.tcpOpen at failed ⊢
  split
  · rfl
  · split
    · simp [setConnectResult_ok, *] at failed
    · rfl

private theorem pipeOpen_error {mode : Mode} (failed : (f.pipeOpen mode opened none).1 ≠ none) :
    (f.pipeOpen mode opened none).2 = f := by
  unfold Flags.pipeOpen at failed ⊢
  split
  · simp [setConnectResult_ok, *] at failed
  · rfl

/-- In a run of allowed steps, the flags tell the truth, and an open that fails leaves them as they were. -/
theorem run_truthful (steps : List Step) (meets : MeetsAll Connection.step Allowed steps {}) :
    ((Connection.run steps {}).flags.inConnected = true ∨ (Connection.run steps {}).flags.outConnected = true →
        (Connection.run steps {}).flags.established = true) ∧
      ((Connection.run steps {}).flags.established = true → (Connection.run steps {}).succeeded = true) ∧
      (∀ opened peer answer, Allowed (Connection.run steps {}) (.tcpOpen opened peer answer) →
        ((Connection.run steps {}).flags.tcpOpen opened peer answer).1 ≠ none →
        ((Connection.run steps {}).flags.tcpOpen opened peer answer).2 = (Connection.run steps {}).flags) ∧
      ∀ mode opened answer, Allowed (Connection.run steps {}) (.pipeOpen mode opened answer) →
        ((Connection.run steps {}).flags.pipeOpen mode opened answer).1 ≠ none →
        ((Connection.run steps {}).flags.pipeOpen mode opened answer).2 = (Connection.run steps {}).flags := by
  have initial : Truthful {} := ⟨sound_of_closed rfl rfl, nofun, nofun⟩
  have truthful := meets.keeps (fun _ _ allowed truthful => Truthful.step truthful allowed) initial
  refine ⟨truthful.sound, truthful.established, fun opened peer answer allowed => ?_,
    fun mode opened answer allowed => ?_⟩
  · obtain rfl : answer = none := allowed
    exact tcpOpen_error
  · obtain rfl : answer = none := allowed.2
    exact pipeOpen_error

/-- A stream is accepted, shut down and reset, and opened again. -/
def acceptSteps : List Step :=
  [.accept none, .finalize 0 none none, .shutdown, .shutdownEvent none, .eof, .reset, .tcpOpen none true none]

theorem acceptSteps_truthful :
    (Connection.run acceptSteps {}).flags.established = true ∧
      ((Connection.run acceptSteps {}).flags.inConnected = true ∨
          (Connection.run acceptSteps {}).flags.outConnected = true →
        (Connection.run acceptSteps {}).flags.established = true) ∧
      ((Connection.run acceptSteps {}).flags.established = true → (Connection.run acceptSteps {}).succeeded = true) :=
  have truthful := run_truthful acceptSteps (by decide +kernel)
  ⟨by decide +kernel, truthful.1, truthful.2.1⟩

/-- The backend does not open the pipe, and the open succeeds; reading does not start, and the open fails with the
flags set; a stream is reset in `on_establish`, and connected afterwards. -/
theorem pipeOpen_untruthful :
    (Flags.pipeOpen 3 (some (.other 9)) none {}).1 = none ∧
      (Connection.run [.pipeOpen 3 (some (.other 9)) none] {}).flags.established = true ∧
      (Connection.run [.pipeOpen 3 (some (.other 9)) none] {}).succeeded = false ∧
      (Flags.tcpOpen none true (some (.other 22)) {}).1 = some (.other 22) ∧
      (Flags.tcpOpen none true (some (.other 22)) {}).2.established = true ∧
      (Connection.run [.accept none, .reset, .finalize 0 none none] {}).flags.established = true ∧
      (Connection.run [.accept none, .reset, .finalize 0 none none] {}).succeeded = false := by
  decide +kernel

end UniEvent.StreamOpen
