import UniEvent.Model.SslBio
import Mathlib.Data.List.Induction

/-! # The memory BIO is a queue of bytes

Bytes are appended to the buffer and taken from its front, whatever the strings do with their memory.
-/

namespace UniEvent.SslBio

/-- The bytes up to the first newline, which is included. -/
def firstLine : List UInt8 → List UInt8
  | [] => []
  | b :: rest => if b = newline then [b] else b :: firstLine rest

private theorem toInt_of_lt {length : ℕ} (fits : length < 2 ^ 31) : toInt length = length := by
  unfold toInt
  apply Int.bmod_eq_of_le_mul_two
  · omega
  · omega

namespace Bio

variable (bio : Bio)

/-- The old bytes are moved. -/
theorem reserve_eq (capacity inl : ℕ) : bio.reserve capacity inl = bio.buf := by
  rw [reserve]
  split
  · cases bio.buf <;> simp
  · rfl

/-- What is read is what the buffer loses. -/
theorem bioRead_out (n : ℤ) : (bio.bioRead n).1.out ++ (bio.bioRead n).2.buf = bio.buf := by
  rw [bioRead]
  split
  · exact List.take_append_drop ..
  · split
    · rfl
    · rfl

private theorem bioGets_out (size : ℤ) : (bio.bioGets size).1.out ++ (bio.bioGets size).2.buf = bio.buf := by
  rw [bioGets]
  split
  · rfl
  · exact bio.bioRead_out _

private theorem outl_eq (fits : bio.buf.length < 2 ^ 31) (n : ℤ) : bio.outl n = min n bio.buf.length := by
  rw [outl, toInt_of_lt fits]
  omega

private theorem most_eq (fits : bio.buf.length < 2 ^ 31) (size : ℤ) :
    bio.most size = min (size - 1) bio.buf.length := by
  rw [most, toInt_of_lt fits]
  omega

/-- A read takes what it can get, and asks for a retry if there is nothing. -/
theorem bioRead_eq (fits : bio.buf.length < 2 ^ 31) {n : ℤ} (positive : 0 < n) :
    bio.bioRead n =
      ({ ret := if bio.buf = [] then -1 else min n bio.buf.length, out := bio.buf.take n.toNat },
        { buf := bio.buf.drop n.toNat, retry := bio.buf = [] }) := by
  rw [bioRead, bio.outl_eq fits]
  by_cases empty : bio.buf = []
  · have nothing : ¬ 0 < min n (bio.buf.length : ℤ) := by
      rw [empty, List.length_nil]
      omega
    rw [if_neg nothing]
    simp [empty]
  · have someByte : 0 < bio.buf.length := List.length_pos_iff.mpr empty
    have length : (min n bio.buf.length).toNat = min n.toNat bio.buf.length := by omega
    have take : bio.buf.take (min n.toNat bio.buf.length) = bio.buf.take n.toNat := List.take_eq_take_min.symm
    have drop : bio.buf.drop (min n.toNat bio.buf.length) = bio.buf.drop n.toNat := List.drop_eq_drop_min.symm
    rw [if_pos (by omega), length, take, drop, if_neg empty, decide_eq_false empty]

end Bio

private theorem lineLength_le (j : ℕ) (p : List UInt8) : lineLength j p ≤ j := by
  fun_induction lineLength j p with
  | case1 => exact Nat.le_refl 0
  | case2 => exact Nat.zero_le _
  | case3 => omega
  | case4 => omega

private theorem take_lineLength (j : ℕ) (p : List UInt8) : p.take (lineLength j p) = firstLine (p.take j) := by
  fun_induction lineLength j p with
  | case1 p => rfl
  | case2 => simp [firstLine]
  | case3 j p => simp [firstLine]
  | case4 j b p other ih => simp [firstLine, other, ih]

private theorem lineLength_pos {j : ℕ} {p : List UInt8} (positive : 0 < j) (someByte : p ≠ []) :
    0 < lineLength j p := by
  fun_cases lineLength j p with
  | case1 => exact absurd positive (Nat.lt_irrefl 0)
  | case2 => exact absurd rfl someByte
  | case3 => exact Nat.one_pos
  | case4 => exact Nat.succ_pos _

/-- The line that `bio_gets` takes: at most one byte less than there is room for, up to the first newline. -/
def Bio.line (bio : Bio) (size : ℤ) : List UInt8 := firstLine (bio.buf.take (size - 1).toNat)

theorem Bio.bioGets_eq (bio : Bio) (fits : bio.buf.length < 2 ^ 31) {size : ℤ} (positive : 0 < size) :
    bio.bioGets size = ({ ret := (bio.line size).length, out := bio.line size },
      { buf := bio.buf.drop (bio.line size).length, retry := false }) := by
  rw [bioGets, bio.most_eq fits]
  split
  · next noneTaken =>
    have empty : bio.buf.take (size - 1).toNat = [] := by
      rw [List.take_eq_nil_iff, ← List.length_eq_zero_iff]
      omega
    rw [line, empty]
    rfl
  · next room =>
    have length : (min (size - 1) bio.buf.length).toNat = min (size - 1).toNat bio.buf.length := by omega
    have someByte : bio.buf ≠ [] := fun empty => room (by rw [empty, List.length_nil]; omega)
    rw [length]
    have positive := lineLength_pos (j := min (size - 1).toNat bio.buf.length) (by omega) someByte
    have most := lineLength_le (min (size - 1).toNat bio.buf.length) bio.buf
    have taken := take_lineLength (min (size - 1).toNat bio.buf.length) bio.buf
    rw [← List.take_eq_take_min] at taken
    generalize lineLength (min (size - 1).toNat bio.buf.length) bio.buf = n at positive most taken ⊢
    have line : bio.line size = bio.buf.take n := taken.symm
    have lengthLine : (bio.line size).length = n := by
      rw [line, List.length_take]
      omega
    have all : min (n : ℤ) bio.buf.length = n := by omega
    rw [bio.bioRead_eq fits (Int.natCast_pos.mpr positive), lengthLine, line, Int.toNat_natCast, if_neg someByte,
      decide_eq_false someByte, all]

/-! ### Every sequence of calls -/

private theorem firstLine_length_le (p : List UInt8) : (firstLine p).length ≤ p.length := by
  fun_induction firstLine p with
  | case1 => exact Nat.le_refl _
  | case2 rest => exact Nat.succ_le_succ (Nat.zero_le _)
  | case3 b rest other ih => exact Nat.succ_le_succ ih

/-- No byte of the line but the last is a newline. -/
theorem newline_notMem_dropLast (p : List UInt8) : newline ∉ (firstLine p).dropLast := by
  fun_induction firstLine p with
  | case1 => exact List.not_mem_nil
  | case2 rest => exact List.not_mem_nil
  | case3 b rest other ih =>
    cases line : firstLine rest with
    | nil => exact List.not_mem_nil
    | cons c more =>
      rw [line] at ih
      rw [List.dropLast_cons_of_ne_nil (List.cons_ne_nil c more), List.mem_cons, not_or]
      exact ⟨fun same => other same.symm, ih⟩

private theorem took_fifo {s : State} (fifo : s.taken ++ s.bio.buf = s.put) {call : Result × Bio}
    (out : call.1.out ++ call.2.buf = s.bio.buf) :
    (s.took call).taken ++ (s.took call).bio.buf = (s.took call).put := by
  rw [State.took, List.append_assoc, out, fifo]

private theorem step_fifo {s : State} (fifo : s.taken ++ s.bio.buf = s.put) (op : Op) :
    (s.step op).taken ++ (s.step op).bio.buf = (s.step op).put := by
  cases op with
  | write capacity bytes => rw [State.step, Bio.bioWrite, Bio.reserve_eq, ← fifo, List.append_assoc]
  | setBuf bytes => rw [State.step, Bio.setBuf, ← fifo, List.append_assoc]
  | read n => exact took_fifo fifo (s.bio.bioRead_out n)
  | gets size => exact took_fifo fifo (s.bio.bioGets_out size)
  | steal => rw [State.step, Bio.stealBuf, List.append_nil, fifo]

private theorem run_fifo (ops : List Op) : (run ops).taken ++ (run ops).bio.buf = (run ops).put := by
  induction ops using List.reverseRecOn with
  | nil => rfl
  | append_singleton ops op ih =>
    rw [run, List.foldl_append]
    exact step_fifo ih op

/-- After every sequence of calls, the bytes taken out and the bytes in the buffer are the bytes put in, and
`BIO_CTRL_PENDING` counts those in the buffer. Unless there are too many for an `int`, the next `bio_read` takes what it
can get and returns the number of bytes, or minus one with the retry flags exactly if there are none; and the next
`bio_gets` takes the bytes up to the first newline, at most one less than there is room for. -/
theorem run_queue (ops : List Op) :
    (run ops).taken ++ (run ops).bio.buf = (run ops).put ∧
    ((run ops).bio.bioCtrl .pending).1 = (run ops).bio.buf.length ∧
    ((run ops).bio.buf.length < 2 ^ 31 →
      (∀ n : ℤ, 0 < n → (run ops).bio.bioRead n =
        ({ ret := if (run ops).bio.buf = [] then -1 else min n (run ops).bio.buf.length,
           out := (run ops).bio.buf.take n.toNat },
         { buf := (run ops).bio.buf.drop n.toNat, retry := (run ops).bio.buf = [] })) ∧
      ∀ size : ℤ, 0 < size → ∃ line, line = firstLine ((run ops).bio.buf.take (size - 1).toNat) ∧
        line.length ≤ size - 1 ∧ newline ∉ line.dropLast ∧ (run ops).bio.bioGets size =
          ({ ret := line.length, out := line }, { buf := (run ops).bio.buf.drop line.length, retry := false })) := by
  refine ⟨run_fifo ops, rfl, fun fits => ⟨fun n positive => Bio.bioRead_eq _ fits positive, fun size positive => ?_⟩⟩
  refine ⟨(run ops).bio.line size, rfl, ?_, newline_notMem_dropLast _, Bio.bioGets_eq _ fits positive⟩
  have line := firstLine_length_le ((run ops).bio.buf.take (size - 1).toNat)
  rw [List.length_take] at line
  rw [Bio.line]
  omega

/-- A read from an empty buffer returns minus one, not the number of bytes. -/
theorem empty_read : ((run []).bio.bioRead 5).1.ret = -1 ∧ min 5 ((run []).bio.buf.length : ℤ) = 0 := by
  decide

end UniEvent.SslBio
