import UniEvent.Model.LoadAverage
import Mathlib.Algebra.Group.Fin.Basic
import Mathlib.Algebra.Order.Field.Basic
import Mathlib.Data.List.Induction
import Mathlib.Tactic.Abel
import Mathlib.Tactic.NormNum

/-! # The load average lies between zero and one

The ring holds the samples of the last ticks, the construction standing in for the ticks before the first. A sample and
a later call agree in that the counter has grown by no more than the clock, so no subtraction of words wraps.
-/

namespace UniEvent.LoadAverage

variable {counter : Counter} {metrics : LAMetrics}

namespace LAMetrics

private theorem nextIdx_eq (metrics : LAMetrics) : metrics.nextIdx = metrics.ti + 1 := by
  rw [nextIdx]
  generalize metrics.ti = ti
  revert ti
  decide

/-- The slot that the next tick overwrites is nine slots behind the current one. -/
theorem nextIdx_behind (metrics : LAMetrics) : metrics.nextIdx = metrics.ti - 9 := by
  rw [nextIdx]
  generalize metrics.ti = ti
  revert ti
  decide

/-- The slots from the current one backwards hold the samples, the newest first, and the oldest fills the rest. -/
def Holds (metrics : LAMetrics) (samples : List TimeRow) : Prop :=
  ∀ back : Fin laIntervals,
    samples[min back.val (samples.length - 1)]? = some (metrics.times (metrics.ti - back))

private theorem create_holds (reading : Reading) : (create reading).Holds [reading.row] := by
  intro back
  simp [create]

theorem Holds.handleTimer {samples : List TimeRow} (holds : metrics.Holds samples) (someSample : samples ≠ [])
    (reading : Reading) : (metrics.handleTimer reading).Holds (reading.row :: samples) := by
  intro back
  have length : 0 < samples.length := List.length_pos_iff.mpr someSample
  by_cases current : back = 0
  · simp only [current, LAMetrics.handleTimer, Fin.val_zero, Nat.zero_min, List.getElem?_cons_zero, sub_zero,
      Function.update_self]
  · have positive : 0 < back.val := Nat.pos_of_ne_zero fun zero => current (Fin.ext zero)
    have before : (back - 1).val = back.val - 1 := Fin.val_sub_one_of_ne_zero current
    have slot : metrics.ti + 1 - back = metrics.ti - (back - 1) := by abel
    have other : metrics.ti + 1 - back ≠ metrics.ti + 1 := fun same => current (sub_eq_self.mp same)
    have index : min back.val samples.length = min (back.val - 1) (samples.length - 1) + 1 := by omega
    have older := holds (back - 1)
    rw [before] at older
    simp only [LAMetrics.handleTimer, nextIdx_eq, List.length_cons, Nat.add_sub_cancel, index,
      List.getElem?_cons_succ, older]
    rw [Function.update_of_ne other, slot]

end LAMetrics

private theorem ticks_concat_get (ops : List (Op counter)) (call : Call counter) :
    ticks (ops ++ [.get call]) = ticks ops := by
  simp [ticks, List.filterMap_append, Op.sample]

private theorem ticks_concat_tick (ops : List (Op counter)) (call : Call counter) :
    ticks (ops ++ [.tick call]) = ticks ops ++ [call] := by
  simp [ticks, List.filterMap_append, Op.sample]

/-- The rows of the samples of a run, the newest first. -/
def rows (created : Call counter) (ops : List (Op counter)) : List TimeRow :=
  (created :: ticks ops).reverse.map fun call => call.reading.row

section

variable (created : Call counter) (ops : List (Op counter))

include created ops

private theorem rows_ne_nil : rows created ops ≠ [] := by
  simp [rows]

private theorem run_holds : (run created ops).Holds (rows created ops) := by
  induction ops using List.reverseRecOn with
  | nil => exact LAMetrics.create_holds created.reading
  | append_singleton ops op ih =>
    simp only [run, List.foldl_append, List.foldl_cons, List.foldl_nil] at ih ⊢
    cases op with
    | get call =>
      rw [rows, ticks_concat_get]
      exact ih
    | tick call =>
      rw [rows, ticks_concat_tick, ← List.cons_append, List.reverse_append]
      exact ih.handleTimer (rows_ne_nil created ops) call.reading

/-- The slot that `get` reads holds the sample of nine ticks ago, or the first one. -/
theorem run_slot :
    ∃ sample, sampleAgo? created ops (min (ticks ops).length (laIntervals - 1)) = some sample ∧
      (run created ops).times (run created ops).nextIdx = sample.reading.row := by
  have holds := run_holds created ops 9
  rw [← LAMetrics.nextIdx_behind] at holds
  have length : (rows created ops).length - 1 = (ticks ops).length := by simp [rows]
  rw [length, rows, List.getElem?_map, Option.map_eq_some_iff] at holds
  obtain ⟨sample, found, row⟩ := holds
  refine ⟨sample, ?_, row.symm⟩
  rw [sampleAgo?, Nat.min_comm]
  exact found

/-! ### Two calls -/

end

/-- The counter grows by no more than the clock. -/
theorem Counter.between (counter : Counter) {start stop : ℕ} (order : start ≤ stop) :
    counter.idle start ≤ counter.idle stop ∧ counter.idle stop - counter.idle start ≤ stop - start := by
  obtain ⟨span, rfl⟩ := Nat.exists_eq_add_of_le order
  have grows := counter.grows start span
  have slow := counter.slow start span
  omega

private theorem toNat_ofNat_sub {larger smaller : ℕ} (order : smaller ≤ larger) (fits : larger < 2 ^ 64) :
    (UInt64.ofNat larger - UInt64.ofNat smaller).toNat = larger - smaller := by
  have low : (UInt64.ofNat smaller).toNat = smaller := UInt64.toNat_ofNat_of_lt' (order.trans_lt fits)
  have high : (UInt64.ofNat larger).toNat = larger := UInt64.toNat_ofNat_of_lt' fits
  rw [UInt64.toNat_sub_of_le _ _ (by rw [UInt64.le_iff_toNat_le]; omega), low, high]

/-- What `get` computes is what the counter and the clock did since a sample. -/
structure Exact (metrics : LAMetrics) (sample call : Call counter) : Prop where
  idleForward : counter.idle sample.asked ≤ counter.idle call.asked
  idle : (metrics.idle call.reading).toNat = counter.idle call.asked - counter.idle sample.asked
  timeForward : sample.clocked ≤ call.clocked
  total : (metrics.total call.reading).toNat = call.clocked - sample.clocked
  le : metrics.idle call.reading ≤ metrics.total call.reading

private theorem exact_of_order {sample call : Call counter} (slot : metrics.times metrics.nextIdx = sample.reading.row)
    (order : sample.clocked ≤ call.asked) : Exact metrics sample call := by
  have time : sample.clocked ≤ call.clocked := order.trans call.forward
  obtain ⟨grows, slow⟩ := counter.between order
  rw [sample.busy] at grows slow
  have idle : (metrics.idle call.reading).toNat = counter.idle call.asked - counter.idle sample.asked := by
    rw [LAMetrics.idle, slot]
    exact toNat_ofNat_sub grows call.idleFits
  have total : (metrics.total call.reading).toNat = call.clocked - sample.clocked := by
    rw [LAMetrics.total, slot]
    exact toNat_ofNat_sub time call.clockFits
  have forward := call.forward
  refine ⟨grows, idle, time, total, ?_⟩
  rw [UInt64.le_iff_toNat_le, idle, total]
  omega

private theorem get_bounds (double : Rounding) {reading : Reading} (le : metrics.idle reading ≤ metrics.total reading) :
    0 ≤ metrics.get double reading ∧ metrics.get double reading ≤ 1 := by
  rw [LAMetrics.get]
  split
  · exact ⟨le_refl 0, zero_le_one⟩
  · next someTime =>
    have positive : 1 ≤ (metrics.total reading).toNat :=
      Nat.pos_of_ne_zero fun zero => someTime (UInt64.toNat_inj.mp zero)
    have busy : (metrics.total reading - metrics.idle reading).toNat ≤ (metrics.total reading).toNat := by
      rw [UInt64.toNat_sub_of_le _ _ le]
      exact Nat.sub_le _ _
    have low : 0 ≤ double.round (metrics.total reading - metrics.idle reading).toNat := by
      rw [← double.zero]
      exact double.mono (Nat.cast_nonneg _)
    have order : double.round (metrics.total reading - metrics.idle reading).toNat
        ≤ double.round (metrics.total reading).toNat := double.mono (Nat.cast_le.mpr busy)
    have high : 1 ≤ double.round (metrics.total reading).toNat := by
      rw [← double.one]
      exact double.mono (Nat.one_le_cast.mpr positive)
    constructor
    · rw [← double.zero]
      exact double.mono (div_nonneg low (zero_le_one.trans high))
    · rw [← double.one]
      exact double.mono (div_le_one_of_le₀ order (zero_le_one.trans high))

/-! ### Every run -/

private theorem mem_of_sampleAgo? {created sample : Call counter} {ops : List (Op counter)} {ago : ℕ}
    (found : sampleAgo? created ops ago = some sample) : sample ∈ created :: ops.map Op.call := by
  have member : sample ∈ created :: ticks ops := List.mem_reverse.mp (List.mem_of_getElem? found)
  rcases List.mem_cons.mp member with rfl | tick
  · exact List.mem_cons_self
  · obtain ⟨op, opMem, same⟩ := List.mem_filterMap.mp tick
    apply List.mem_cons_of_mem
    cases op with
    | tick call =>
      cases same
      exact List.mem_map_of_mem opMem
    | get call => cases same

/-- In every run, `get` reads the sample of nine ticks ago or the first one, computes the idle and the whole time since
then without wrapping, and returns a ratio between zero and one. -/
theorem get_between (double : Rounding) (created : Call counter) (ops : List (Op counter)) (call : Call counter)
    (order : InOrder (created :: (ops.map Op.call).concat call)) :
    ∃ sample, sampleAgo? created ops (min (ticks ops).length (laIntervals - 1)) = some sample ∧
      (run created ops).times (run created ops).nextIdx = sample.reading.row ∧
      Exact (run created ops) sample call ∧
      0 ≤ (run created ops).get double call.reading ∧ (run created ops).get double call.reading ≤ 1 := by
  obtain ⟨sample, found, slot⟩ := run_slot created ops
  have earlier : sample.clocked ≤ call.asked := by
    rw [InOrder, List.concat_eq_append, ← List.cons_append, List.pairwise_append] at order
    exact order.2.2 sample (mem_of_sampleAgo? found) call (List.mem_singleton_self call)
  have computed : Exact (run created ops) sample call := exact_of_order slot earlier
  exact ⟨sample, found, slot, computed, get_bounds double computed.le⟩

/-- The exact arithmetic. -/
def Rounding.none : Rounding := { round := id, mono := monotone_id, zero := rfl, one := rfl }

/-- A loop that waits in every second unit of time. -/
def everySecond : Counter where
  idle time := time / 2
  grows time span := by omega
  slow time span := by omega

def everySecond.call (unit : Fin 100) : Call everySecond where
  asked := 2 * unit
  clocked := 2 * unit + 1
  forward := by omega
  busy := by simp only [everySecond]; omega
  clockFits := by omega
  idleFits := by simp only [everySecond]; omega

/-- One tick, and the load since the construction is one half. -/
theorem everySecond_get :
    ((run (everySecond.call 0) [.tick (everySecond.call 5)]).get .none (everySecond.call 10).reading = 1 / 2) ∧
      ∃ sample, sampleAgo? (everySecond.call 0) [.tick (everySecond.call 5)] 1 = some sample ∧
        Exact (run (everySecond.call 0) [.tick (everySecond.call 5)]) sample (everySecond.call 10) := by
  constructor
  · decide +kernel
  · obtain ⟨sample, found, -, computed, -⟩ := get_between .none (everySecond.call 0) [.tick (everySecond.call 5)]
      (everySecond.call 10) (by simp [InOrder, Op.call, everySecond.call])
    exact ⟨sample, found, computed⟩

end UniEvent.LoadAverage
