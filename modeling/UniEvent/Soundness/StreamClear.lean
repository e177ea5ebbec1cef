import UniEvent.Proofs.StreamClear
import UniEvent.Proofs.StreamRun

/-! # What `clear()` leaves

`clear()` is to leave a stream as it was made, whatever the callbacks of the requests it cancels do. The post step that
does so is skipped if a callback has canceled the queue meanwhile, on the assumption that the inner call did the same:
`reset()` does not. So the stream is as new if and only if one of the calls of `clear()` was innermost, or there was
nothing to unset.
-/

namespace UniEvent.Stream

open Program Program.Exec

variable {s t : State}

/-- The stream is as newly constructed. -/
def AsNew (s : State) : Prop := s.owner.flags = {} ∧ s.owner.wqSize = 0 ∧ s.owner.setup = {}

instance (s : State) : Decidable (AsNew s) := inferInstanceAs (Decidable (_ ∧ _ ∧ _))

/-- The calls of `reset()` and `clear()` that callbacks made between `s` and `t`. -/
def callsSince (s t : State) : List Call := t.owner.calls.take (t.owner.calls.length - s.owner.calls.length)

private theorem callsSince_eq {new : List Call} (calls : t.owner.calls = new ++ s.owner.calls) :
    callsSince s t = new := by
  simp [callsSince, calls]

private theorem asNew_iff (clean : Clean s.owner) : AsNew s ↔ s.owner.kept = (false, {}) := by
  obtain ⟨flags, size⟩ := clean
  rw [AsNew, Handle.kept, Prod.mk.injEq, flags, size]
  simp

/-! ### The requests that wait behind a cancel -/

/-- Nothing is left to undo, and only disconnect requests wait. -/
structure Settled (kept : Bool × Setup) (calls : List Call) (s : State) : Prop where
  only : OnlyDisconnects s
  clean : Clean s.owner
  kept : s.owner.kept = kept
  calls : s.owner.calls = calls

section Settled
variable {kept : Bool × Setup} {calls : List Call}

theorem Settled.of_owner (settled : Settled kept calls s) (requests : t.requests <:+ s.requests)
    (owner : t.owner = s.owner) : Settled kept calls t where
  only req member := settled.only req (requests.subset member)
  clean := owner ▸ settled.clean
  kept := owner ▸ settled.kept
  calls := owner ▸ settled.calls

/-- The guard of `done`, whatever the exception that passes it. -/
theorem release_settled {h : Members} {failed : Bool} (settled : Settled kept calls s)
    (resumes : ∀ m, Settled kept calls m → wp (Queue.resume h) (fun o t => o.Returned → Settled kept calls t) m) :
    wp (do Queue.release h; when (failed = true) (halt .thrown)) (fun o t => o.Returned → Settled kept calls t) s := by
  simp only [Queue.release, wp_bind, wp_modify, next_done]
  have unlocked : Settled kept calls { s.unlock with resumeRecursion := s.unlock.resumeRecursion + 1 } :=
    settled.of_owner (List.suffix_refl _) rfl
  refine wp_mono (resumes _ unlocked) ?_
  rintro (value | why) t back
  · have after : Settled kept calls { t with resumeRecursion := t.resumeRecursion - 1 } :=
      (back trivial).of_owner (List.suffix_refl _) rfl
    rw [next_done, wp_modify, next_done, wp_when]
    exact ⟨fun _ _ => after, fun _ _ => after⟩
  · exact back

/-- A disconnect request at the front calls no code of the user. -/
theorem disconnect_settled {n : ℕ} {id : ℕ} (settled : Settled kept calls s)
    (resumes : ∀ m, Settled kept calls m →
      wp (Queue.resume (members n)) (fun o t => o.Returned → Settled kept calls t) m) :
    wp (Queue.done (members n) (.disconnect id) .reset) (fun o t => o.Returned → Settled kept calls t) s := by
  simp only [Queue.done, wp_bind, wp_modify, wp_get, next_done, wp_assert]
  refine ⟨fun _ => ?_, fun _ returned => by cases returned⟩
  have retired (m : State) (requests : m.requests = s.requests.tail) (owner : m.owner = s.owner) :
      Settled kept calls m := settled.of_owner (requests ▸ List.tail_suffix _) owner
  simp only [Queue.complete, wp_bind, wp_get, next_done]
  split
  · exact fun _ => retired _ rfl rfl
  · split
    · cases n with
      | zero => exact fun returned => by cases returned
      | succ n =>
        exact release_settled ⟨fun req member => settled.only req ((List.tail_suffix _).subset member), ⟨rfl, rfl⟩,
          settled.kept, settled.calls⟩ resumes
    · exact fun _ => retired _ rfl rfl

end Settled

private theorem resume_settled (n : ℕ) {kept : Bool × Setup} {calls : List Call} : ∀ s, Settled kept calls s →
    wp (Queue.resume (members n)) (fun o t => o.Returned → Settled kept calls t) s := by
  induction n with
  | zero =>
    intro s settled
    simp only [Queue.resume, wp_bind, wp_get, next_done]
    split
    · exact fun _ => settled
    · rw [wp_when]
      refine ⟨fun _ => ?_, fun _ _ => settled⟩
      intro returned
      cases returned
  | succ n ih =>
    intro s settled
    simp only [Queue.resume, wp_bind, wp_get, next_done]
    split
    · exact fun _ => settled
    · rename_i req rest requests
      rw [wp_when]
      refine ⟨fun _ => ?_, fun _ _ => settled⟩
      have kind := settled.only req (by rw [requests]; exact List.mem_cons_self)
      cases req with
      | disconnect id =>
        have logged : Settled kept calls (s.log (.exec (.disconnect id) s.requests)) :=
          settled.of_owner (List.suffix_refl _) rfl
        exact disconnect_settled logged ih
      | _ => cases kind

/-! ### The call -/

/-- What `clear()` leaves is what the calls made meanwhile and its own post step leave. -/
theorem clear_settled (n : ℕ) (wf : Wf s) (clearing : Clearing s) :
    wp (clear (members n)) (fun o t => o.Returned → ∃ new,
      Settled (keptAfter (⟨true, decide (new = [])⟩ :: new) s.owner.kept) (new ++ s.owner.calls) t) s := by
  have guided := members_clears n
  let called : State := s.log (.own .resetCall)
  have wf' := Queue.beginCancel_wf (wf.log (Event.plain_own Note.resetCall)) none
  have ctl' : Ctl (called.beginCancel none) := Queue.beginCancel_ctl fun _ none => by cases none
  have locked := cancelLocked_wiped guided true wf' ctl' (Nat.succ_pos _) clearing rfl
  have cleared : wp (Queue.cancelLocked (members n) (pure ()) (wipe true) called.cancelGen)
      (Queue.Cleared Own (called.beginCancel none)) (called.beginCancel none) :=
    Queue.cancelLocked_post guided.toOk _ wf' ctl' (Nat.succ_pos _) (fun _ _ ctl => Post.refl ctl)
      fun _ wf ctl _ => wipe_spec true _ wf ctl
  let Left (t : State) : Prop := ∃ new,
    Settled (keptAfter (⟨true, decide (new = [])⟩ :: new) s.owner.kept) (new ++ s.owner.calls) t
  refine wp_cancel_resumed (s := called) (M := Left) (R := Left) cleared (wp_mono locked ?_) ?_
  · intro o p wiped returned _
    obtain ⟨new, calls, _, kept⟩ := (wiped returned).calls
    exact ⟨new, (wiped returned).only, (wiped returned).clean, kept, calls⟩
  · rintro m ⟨new, settled⟩
    exact wp_mono (resume_settled n m settled) fun _ _ back returned => ⟨new, back returned⟩

private theorem keptAfter_eq_new (new : List Call) (kept : Bool × Setup) :
    keptAfter (⟨true, decide (new = [])⟩ :: new) kept = (false, {}) ↔
      new = [] ∨ (∃ c ∈ new, c.clear = true ∧ c.innermost = true) ∨ kept = (false, {}) := by
  by_cases empty : new = []
  · simp [keptAfter, Call.cleared, empty]
  · by_cases cleared : ∃ c ∈ new, c.clear = true ∧ c.innermost = true
    · simp [keptAfter, Call.cleared, empty, cleared]
    · simp [keptAfter, Call.cleared, empty, cleared]

/-- After `clear()`, with callbacks that reset, clear, disconnect or throw, the stream is as new if and only if no
callback reset or cleared it, or some callback cleared it and no other such call was made inside that one, or `DONTREAD`
and everything the user sets up were unset before. -/
theorem clear_asNew_iff (n : ℕ) (s : State) (wf : Wf s) (callbacks : ∀ act ∈ s.owner.script, act.clears = true)
    (returned : (clear (members n) s).1.Returned) :
    AsNew (clear (members n) s).2 ↔
      callsSince s (clear (members n) s).2 = [] ∨
      (∃ c ∈ callsSince s (clear (members n) s).2, c.clear = true ∧ c.innermost = true) ∨
      s.owner.flags.dontRead = false ∧ s.owner.setup = {} := by
  obtain ⟨new, settled⟩ := clear_settled n wf callbacks returned
  rw [asNew_iff settled.clean, settled.kept, callsSince_eq settled.calls, keptAfter_eq_new, Handle.kept, Prod.mk.injEq]

/-- A connected stream that does not read and has a listener; the callback of the write that waits will do `acts`. -/
def pausedWrite (acts : List Act) : State :=
  let s := (run [
    { depth := 20, task := .op .opened },
    { depth := 20, task := .op .readStop },
    { depth := 20, script := acts, task := .op (.write 1 [5]) }] initial).2
  { s with owner := { s.owner with setup := { listener := true } } }

private theorem pausedWrite_wf (acts : List Act) : Wf (pausedWrite acts) := by
  have wf := run_wf [
    { depth := 20, task := .op .opened },
    { depth := 20, task := .op .readStop },
    { depth := 20, script := acts, task := .op (.write 1 [5]) }]
  exact { wf with }

/-- The callback of the write clears the stream itself and throws. -/
theorem clearedAgain_asNew : AsNew (clear (members 20) (pausedWrite [.op .clear, .throw])).2 :=
  (clear_asNew_iff 20 _ (pausedWrite_wf _) (by decide) (by decide)).mpr (by decide)

/-- The callback of the write resets the stream, and `clear()` leaves the listener and `DONTREAD`. -/
theorem resetInside_not_asNew :
    (clear (members 20) (pausedWrite [.op .reset])).1 = .done () ∧
    ¬ AsNew (clear (members 20) (pausedWrite [.op .reset])).2 :=
  ⟨by decide, by decide⟩

end UniEvent.Stream
