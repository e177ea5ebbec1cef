import UniEvent.Model.Queue

/-! # The recursion counter of a queue

`done` counts `resume_recursion` up before its `resume()` and down after it. An exception that leaves the `exec` of a
request passes by the second of these; the owner records it, so that the trace is not `Calm` any more. As long as it is,
the counter is the same after every call that comes back, also by an exception.
-/

namespace UniEvent

open Program Program.Exec

variable {ρ φ η ε α β : Type} {quiet : Event ρ φ η → Prop}

/-- Nothing was recorded but what is quiet. -/
def Calm (quiet : Event ρ φ η → Prop) (s : World ρ φ η ε) : Prop := ∀ e ∈ s.trace, quiet e

/-- The counter is the same when a calm call comes back. -/
structure KeptEven (quiet : Event ρ φ η → Prop) (s : World ρ φ η ε) (o : Outcome α) (t : World ρ φ η ε) : Prop where
  older : s.trace <:+ t.trace
  even : o.Returned → Calm quiet t → t.resumeRecursion = s.resumeRecursion

def Even (quiet : Event ρ φ η → Prop) (m : Exec (World ρ φ η ε) α) : Prop := ∀ s, wp m (KeptEven quiet s) s

theorem KeptEven.refl (s : World ρ φ η ε) (o : Outcome α) : KeptEven quiet s o s := ⟨List.suffix_refl _, fun _ _ => rfl⟩

theorem KeptEven.trans {s m t : World ρ φ η ε} {value : β} {o : Outcome α} (first : KeptEven quiet s (.done value) m)
    (second : KeptEven quiet m o t) : KeptEven quiet s o t where
  older := first.older.trans second.older
  even back calm := (second.even back calm).trans (first.even trivial fun e member => calm e (second.older.mem member))

theorem KeptEven.outcome {s t : World ρ φ η ε} {o : Outcome α} {o' : Outcome β} (kept : KeptEven quiet s o t)
    (same : o'.Returned → o.Returned) : KeptEven quiet s o' t := ⟨kept.older, fun back => kept.even (same back)⟩

namespace Even

variable {m : Exec (World ρ φ η ε) β} {f : β → Exec (World ρ φ η ε) α}

theorem pure (value : α) : Even quiet (pure value : Exec (World ρ φ η ε) α) := fun _ => .refl _ _

theorem halt (why : Halt) : Even quiet (halt why : Exec (World ρ φ η ε) α) := fun _ => .refl _ _

theorem modify {f : World ρ φ η ε → World ρ φ η ε}
    (kept : ∀ s, (f s).trace = s.trace ∧ (f s).resumeRecursion = s.resumeRecursion) : Even quiet (modify f) :=
  fun s => ⟨(kept s).1 ▸ List.suffix_refl _, fun _ _ => (kept s).2⟩

/-- A step that records an event. -/
theorem log {f : World ρ φ η ε → World ρ φ η ε}
    (kept : ∀ s, (∃ e, (f s).trace = e :: s.trace) ∧ (f s).resumeRecursion = s.resumeRecursion) :
    Even quiet (Exec.modify f) := by
  intro s
  obtain ⟨⟨e, trace⟩, same⟩ := kept s
  exact ⟨trace ▸ List.suffix_cons _ _, fun _ _ => same⟩

theorem get {f : World ρ φ η ε → Exec (World ρ φ η ε) α} (rest : ∀ s, Even quiet (f s)) : Even quiet (get >>= f) := by
  intro s
  rw [wp_get_bind]
  exact rest s s

theorem bind (first : Even quiet m) (second : ∀ value, Even quiet (f value)) : Even quiet (m >>= f) := by
  intro s
  rw [wp_bind]
  refine wp_mono (first s) ?_
  rintro (value | why) t kept
  · exact wp_mono (second value t) fun o u later => kept.trans later
  · exact kept.outcome id

theorem when {c : Prop} [Decidable c] {m : Exec (World ρ φ η ε) Unit} (inner : Even quiet m) :
    Even quiet (when c m) := by
  intro s
  rw [wp_when]
  exact ⟨fun _ => inner s, fun _ => .refl _ _⟩

theorem assert {c : Prop} [Decidable c] : Even quiet (assert c : Exec (World ρ φ η ε) Unit) := by
  intro s
  rw [wp_assert]
  exact ⟨fun _ => .refl _ _, fun _ => .refl _ _⟩

theorem attempt {m : Exec (World ρ φ η ε) Unit} (inner : Even quiet m) : Even quiet (attempt m) := by
  intro s
  rw [wp_attempt]
  refine wp_mono (inner s) ?_
  rintro (value | why) t kept
  · exact kept.outcome id
  · cases why with
    | thrown => exact kept.outcome fun _ => rfl
    | _ => exact kept.outcome id

theorem ignoring {m : Exec (World ρ φ η ε) Unit} (inner : Even quiet m) : Even quiet (ignoring m) :=
  inner.attempt.bind fun _ => pure _

theorem scopeGuard {code guard : Exec (World ρ φ η ε) Unit} (first : Even quiet code) (second : Even quiet guard) :
    Even quiet (scopeGuard code guard) := first.attempt.bind fun _ => second.bind fun _ => when (halt _)

end Even

/-- The members of a request keep the counter, and an exception that leaves `exec` is recorded. -/
structure Hooks.Even (quiet : Event ρ φ η → Prop) (h : Hooks ρ φ η ε) : Prop where
  exec : ∀ req, UniEvent.Even quiet (h.exec req)
  kept : ∀ req s, wp (h.exec req) (fun o t => o = .halt .thrown → ¬ Calm quiet t) s
  cancel : ∀ req err, UniEvent.Even quiet (h.cancel req err)
  notify : ∀ req err, UniEvent.Even quiet (h.notify req err)
  call : ∀ f, UniEvent.Even quiet (h.call f)
  user : UniEvent.Even quiet h.user

theorem Hooks.Even.spent : (Hooks.spent : Hooks ρ φ η ε).Even quiet :=
  ⟨fun _ => .halt _, fun _ _ => nofun, fun _ _ => .halt _, fun _ _ => .halt _, fun _ => .halt _, .halt _⟩

namespace Queue

variable [DecidableEq ρ] {h : Hooks ρ φ η ε}

section

variable (even : h.Even quiet)

include even

omit [DecidableEq ρ] in
theorem resume_even : Even quiet (resume h) := by
  refine .get fun s => ?_
  split
  · exact .pure _
  · exact .when (.bind (.log fun _ => ⟨⟨_, rfl⟩, rfl⟩) fun _ => even.exec _)

omit [DecidableEq ρ] in
private theorem resume_kept (s : World ρ φ η ε) : wp (resume h) (fun o t => o = .halt .thrown → ¬ Calm quiet t) s := by
  simp only [resume]
  rw [wp_get_bind]
  split
  · rintro ⟨⟩
  · rw [wp_when]
    exact ⟨fun _ => even.kept _ _, fun _ => (by rintro ⟨⟩)⟩

omit [DecidableEq ρ] in
/-- The counter is counted down again, unless an exception is recorded in between. -/
theorem release_even : Even quiet (release h) := by
  intro s
  simp only [release]
  rw [wp_modify_bind, wp_modify_bind, wp_bind]
  refine wp_mono (wp_and (resume_even even _) (resume_kept even _)) ?_
  rintro (_ | why) t ⟨kept, left⟩
  · refine ⟨kept.older, fun _ calm => ?_⟩
    change t.resumeRecursion - 1 = s.resumeRecursion
    rw [kept.even trivial calm]
    rfl
  · exact ⟨kept.older, fun returned calm => absurd calm (left (congrArg Outcome.halt returned))⟩

theorem push_even (req : ρ) : Even quiet (push h req) := by
  refine .bind (.log fun _ => ⟨⟨_, rfl⟩, rfl⟩) fun _ => .get fun s => .bind (.when ?_) fun _ =>
    .modify fun _ => ⟨rfl, rfl⟩
  exact .bind (.log fun _ => ⟨⟨_, rfl⟩, rfl⟩) fun _ => even.exec _

theorem done_even (check : ρ) (f : φ) : Even quiet (done h check f) := by
  refine .bind (.log fun _ => ⟨⟨_, rfl⟩, rfl⟩) fun _ => .get fun _ => .bind .assert fun _ =>
    .bind (.modify fun _ => ⟨rfl, rfl⟩) fun _ => .get fun s => ?_
  split
  · exact .modify fun _ => ⟨rfl, rfl⟩
  · split
    · exact .bind (.modify fun _ => ⟨rfl, rfl⟩) fun _ => .bind (.log fun _ => ⟨⟨_, rfl⟩, rfl⟩) fun _ =>
        .scopeGuard (even.call f) (release_even even)
    · exact .modify fun _ => ⟨rfl, rfl⟩

private theorem flushFinalized_even (budget : ℕ) : Even quiet (flushFinalized h budget) := by
  induction budget with
  | zero => exact .halt _
  | succ budget ih =>
    refine .get fun s => ?_
    split
    · exact .pure _
    · exact .bind (.log fun _ => ⟨⟨_, rfl⟩, rfl⟩) fun _ => .bind (even.notify _ _).attempt fun _ =>
        .bind ih fun _ => .pure _

private theorem cancelRequests_even (budget : ℕ) : Even quiet (cancelRequests h budget) := by
  induction budget with
  | zero => exact .halt _
  | succ budget ih =>
    refine .get fun s => ?_
    split
    · exact .halt _
    · refine .bind (.log fun _ => ⟨⟨_, rfl⟩, rfl⟩) fun _ => .bind (even.cancel _ _).attempt fun kept =>
        .get fun s => .bind .assert fun _ => ?_
      split
      · exact .bind ih fun _ => .pure _
      · exact .pure _

variable {fpre fpost : Exec (World ρ φ η ε) Unit} (pre : Even quiet fpre) (post : Even quiet fpost)

include pre post

theorem cancel_even (till : Option ρ) : Even quiet (cancel h fpre fpost till) := by
  have waiting : Even quiet (cancelWaiting h) := by
    refine .get fun s => ?_
    split
    · exact cancelRequests_even even _
    · exact .pure _
  have posted (gen : ℕ) : Even quiet (postCancel fpost gen) := by
    refine .get fun s => ?_
    split
    · exact .attempt (.bind post fun _ => .modify fun _ => ⟨rfl, rfl⟩)
    · exact .pure _
  have pending : Even quiet (cancelPending h fpre) :=
    .bind (flushFinalized_even even _) fun _ => .bind pre.attempt fun _ => .bind waiting fun _ => .pure _
  have locked (gen : ℕ) : Even quiet (cancelLocked h fpre fpost gen) :=
    .bind pending fun _ => .bind (posted gen) fun _ => .pure _
  exact .bind (.modify fun _ => ⟨rfl, rfl⟩) fun _ => .get fun s => .bind (locked _) fun _ =>
    .bind (.modify fun _ => ⟨rfl, rfl⟩) fun _ => .bind (resume_even even) fun _ => .when (.halt _)

omit pre post

theorem fire_even : Even quiet (fire h) := by
  refine .get fun s => ?_
  split
  · exact .pure _
  · refine .bind .assert fun _ => .bind (.log fun _ => ⟨⟨_, rfl⟩, rfl⟩) fun _ => ?_
    split
    · refine .bind (even.call _).attempt fun failed => ?_
      split
      · exact .bind (.log fun _ => ⟨⟨_, rfl⟩, rfl⟩) fun _ => .halt _
      · exact .bind (.log fun _ => ⟨⟨_, rfl⟩, rfl⟩) fun _ => resume_even even
    · exact even.call _
  · exact .bind (.modify fun _ => ⟨rfl, rfl⟩) fun _ => even.cancel _ _

end

end Queue

end UniEvent
