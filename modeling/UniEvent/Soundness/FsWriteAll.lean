import UniEvent.Model.FsRequest
import UniEvent.Model.FsWrite

/-! # A write that succeeds

No layer looks at the number of bytes that were written, so that a write succeeds without having written everything
exactly if the operating system has written less than it was asked for.
-/

namespace UniEvent.FsWrite

variable {os : Oracle} {bufs : List Bytes} {offset : ℤ} {fd : ℕ}

/-- The operating system does not write less than it is asked for. -/
def Full (os : Oracle) (total : ℕ) : Prop := os.answer total < 0 ∨ os.answer total = total

/-- The bytes written are those of the buffers. -/
def Whole (fd : ℕ) (offset : ℤ) (bufs : List Bytes) (written : Option Written) : Prop :=
  written = some ⟨fd, offset, bufs.flatten⟩

private theorem write_error (failed : os.answer bufs.flatten.length < 0) :
    write os fd bufs offset = (.error (uvxError (os.answer bufs.flatten.length)), none) := by
  simp only [write, uvFsWrite, if_pos failed]

private theorem write_ok (done : ¬ os.answer bufs.flatten.length < 0) : write os fd bufs offset =
      (.ok (), some ⟨fd, offset, bufs.flatten.take (os.answer bufs.flatten.length).toNat⟩) := by
  simp only [write, uvFsWrite, if_neg done]

/-- The bytes written are all of them if and only if the operating system says so. -/
theorem whole_iff (done : ¬ os.answer bufs.flatten.length < 0) :
    Whole fd offset bufs (some ⟨fd, offset, bufs.flatten.take (os.answer bufs.flatten.length).toNat⟩) ↔
      Full os bufs.flatten.length := by
  have bounded := os.bounded bufs.flatten.length
  simp only [Whole, Full, Option.some.injEq, Written.mk.injEq, true_and]
  constructor
  · intro same
    have length := congrArg List.length same
    rw [List.length_take] at length
    omega
  · intro full
    exact List.take_of_length_le (by omega)

/-- The call that waits. -/
theorem write_whole (os : Oracle) (fd : ℕ) (bufs : List Bytes) (offset : ℤ) :
    ((write os fd bufs offset).1 = .ok () → Whole fd offset bufs (write os fd bufs offset).2) ↔
      Full os bufs.flatten.length := by
  by_cases failed : os.answer bufs.flatten.length < 0
  · rw [write_error failed]
    exact ⟨fun _ => .inl failed, fun _ => nofun⟩
  · rw [write_ok failed]
    exact ⟨fun whole => (whole_iff failed).mp (whole rfl), fun full _ => (whole_iff failed).mpr full⟩

/-- The request, unless the loop has an error for it. -/
theorem request_whole (os : Oracle) (fd : ℕ) (bufs : List Bytes) (offset : ℤ) (err : Option Err) :
    ((Request.write os bufs offset err ⟨fd, none⟩).1 = none →
        Whole fd offset bufs (Request.write os bufs offset err ⟨fd, none⟩).2) ↔
      err ≠ none ∨ Full os bufs.flatten.length := by
  cases err with
  | some err =>
    refine ⟨fun _ => .inl nofun, fun _ success => ?_⟩
    simp [Request.write, Request.afterWork] at success
  | none =>
    by_cases failed : os.answer bufs.flatten.length < 0
    · simp only [Request.write, Request.work, write_error failed]
      exact ⟨fun _ => .inr (.inl failed), fun _ => nofun⟩
    · simp only [Request.write, Request.work, write_ok failed]
      refine ⟨fun whole => .inr ((whole_iff failed).mp (whole rfl)), fun full _ => (whole_iff failed).mpr ?_⟩
      exact full.resolve_left fun none' => none' rfl

/-- In each layer, success means that everything was written if and only if the operating system does not write less
than it is asked for. -/
theorem writes_whole (os : Oracle) (fd : ℕ) (bufs : List Bytes) (offset : ℤ) (front : Bytes) (err : Option Err) :
    (((write os fd bufs offset).1 = .ok () → Whole fd offset bufs (write os fd bufs offset).2) ↔
        Full os bufs.flatten.length) ∧
      (((Request.write os bufs offset err ⟨fd, none⟩).1 = none →
          Whole fd offset bufs (Request.write os bufs offset err ⟨fd, none⟩).2) ↔
        err ≠ none ∨ Full os bufs.flatten.length) ∧
      (((acknowledge os fd front err).1 = none → Whole fd (-1) [front] (acknowledge os fd front err).2) ↔
        err ≠ none ∨ Full os front.length) := by
  refine ⟨write_whole os fd bufs offset, request_whole os fd bufs offset err, ?_⟩
  have chunk := request_whole os fd [front] (-1) err
  rw [List.flatten_singleton] at chunk
  exact chunk

/-! ### The request for all operations -/

section Operations

variable {δ τ φ : Type} (r : FsRequest.Request δ τ φ)

/-- The members of the request for all operations that a write uses. -/
def ofRequest : Request := ⟨r.fd, r.err⟩

private theorem ofRequest_work :
    ofRequest (r.work .void (write os r.fd bufs offset).1) = ((ofRequest r).work os bufs offset).1 := by
  unfold FsRequest.Request.work Request.work FsRequest.result
  cases made : write os r.fd bufs offset with
  | mk ret written => cases ret <;> simp [ofRequest, made, FsRequest.Request.save]

private theorem ofRequest_arrive (err : Option Err) : (r.arrive err).err = ((ofRequest r).afterWork err).1 := by
  simp only [FsRequest.Request.arrive, Request.afterWork, ofRequest]
  split <;> rfl

/-- A write of the request for all operations reports what the write by itself does. -/
theorem run_write {s : FsRequest.State δ τ φ} {answers : (op : FsRequest.Op) → ℕ → op.kind.Ret δ τ φ} {threw : Bool}
    (idle : s.phase = .idle) (answered : answers .write s.req.fd = (write os s.req.fd bufs offset).1) :
    (s.run [.issue .write, .work answers, .afterWork threw]).map (·.reports) =
      some (⟨.write, some (write os s.req.fd bufs offset).1,
        (Request.write os bufs offset none (ofRequest s.req)).1, (),
        threw⟩ :: s.reports) := by
  have reported : ((s.req.work .void (write os s.req.fd bufs offset).1).arrive none).err =
      (Request.write os bufs offset none (ofRequest s.req)).1 := by
    rw [ofRequest_arrive, ofRequest_work]
    rfl
  simp only [FsRequest.State.run, List.foldlM, FsRequest.State.step, idle, Option.bind_eq_bind, Option.bind_some,
    FsRequest.State.handleAfterWork, answered, ← reported]
  rfl

end Operations

/-- A disk on which there is room for three bytes. -/
def fullDisk : Oracle := ⟨fun total => min total 3, fun total => by omega⟩

/-- Three bytes of five are written, and the chunk is acknowledged without an error. -/
theorem fullDisk_acknowledge :
    acknowledge fullDisk 7 [1, 2, 3, 4, 5] none = (none, some ⟨7, -1, [1, 2, 3]⟩) ∧
      (write fullDisk 7 [[1, 2], [3, 4, 5]] 0).1.toOption = some () ∧
      (write fullDisk 7 [[1, 2], [3, 4, 5]] 0).2 = some ⟨7, 0, [1, 2, 3]⟩ := by
  decide +kernel

end UniEvent.FsWrite
