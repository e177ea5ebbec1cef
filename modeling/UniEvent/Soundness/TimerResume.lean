import UniEvent.Model.Timer
import UniEvent.Program.Machine

/-! # Pause and resume

Of the operations that end a pause, only `stop` and `resume` forget the time that was left. A timer on which the others
are not called while it is paused can be resumed exactly when it is paused, and is then due after the time that was
left, if that time does not reach beyond the end of the clock.
-/

namespace UniEvent.Timer

open Program

variable {s : Watched} {op : Op}

/-- A timer that is paused is started, restarted, reset or cleared only after `stop` or `resume`; and the times are not
beyond the clock. -/
def Allowed (s : Watched) : Op → Prop
  | .start _ _ | .once _ | .again | .reset | .clear => s.paused = none
  | .pause => 0 < s.timer.clock
  | .resume => ∀ due ∈ s.paused, s.timer.clock.toNat + due.toNat < 2 ^ 64
  | .stop | .setRpt _ | .expire | .update | .tick _ => True

instance (s : Watched) : ∀ op : Op, Decidable (Allowed s op)
  | .start _ _ | .once _ | .again | .reset | .clear => inferInstanceAs (Decidable (s.paused = none))
  | .pause => inferInstanceAs (Decidable (0 < s.timer.clock))
  | .resume => inferInstanceAs (Decidable (∀ due ∈ s.paused, s.timer.clock.toNat + due.toNat < 2 ^ 64))
  | .stop | .setRpt _ | .expire | .update | .tick _ => .isTrue trivial

/-- What the member stands for. -/
structure Kept (s : Watched) : Prop where
  running : s.paused = none → s.timer.pausedDueIn = UvTimer.greatest
  paused : ∀ due, s.paused = some due →
    s.timer.active = false ∧ s.timer.pausedDueIn = due ∧ due ≠ UvTimer.greatest

private theorem resume_iff (kept : Kept s) : s.timer.resume.1 = none ↔ s.paused.isSome = true := by
  unfold resume
  cases paused : s.paused with
  | none =>
    rw [if_pos (.inr (kept.running paused))]
    exact ⟨nofun, nofun⟩
  | some due =>
    obtain ⟨idle, same, other⟩ := kept.paused due paused
    rw [if_neg]
    · exact ⟨fun _ => rfl, fun _ => rfl⟩
    · rw [idle, same]
      rintro (running | greatest)
      · cases running
      · exact other greatest

/-- A timer that is not beyond the clock is due after the time it is started with. -/
theorem dueIn_start {time initial : UInt64} (fits : time.toNat + initial.toNat < 2 ^ 64) (rpt : UInt64) (u : UvTimer) :
    (u.start time initial rpt).dueIn time = initial := by
  have sum : (time + initial).toNat = time.toNat + initial.toNat := by
    rw [UInt64.toNat_add, Nat.mod_eq_of_lt fits]
  have whole : ¬ time + initial < initial := by
    rw [UInt64.lt_iff_toNat_lt, sum]
    omega
  simp only [UvTimer.dueIn, UvTimer.start, if_neg whole]
  split
  · rename_i beyond
    rw [UInt64.le_iff_toNat_le, sum] at beyond
    exact UInt64.toNat_inj.mp (by simp; omega)
  · rename_i later
    rw [UInt64.le_iff_toNat_le, sum] at later
    refine UInt64.toNat_inj.mp ?_
    rw [UInt64.toNat_sub_of_le _ _ (UInt64.le_iff_toNat_le.mpr (by omega)), sum]
    omega

private theorem dueIn_ne_greatest {time : UInt64} (u : UvTimer) (positive : 0 < time) :
    u.dueIn time ≠ UvTimer.greatest := by
  have positive : 0 < time.toNat := UInt64.lt_iff_toNat_lt.mp positive
  intro same
  have same := congrArg UInt64.toNat same
  have greatest : UvTimer.greatest.toNat = 2 ^ 64 - 1 := rfl
  have bound := u.timeout.toNat_lt
  simp only [UvTimer.dueIn] at same
  split at same
  · have zero : (0 : UInt64).toNat = 0 := rfl
    rw [greatest, zero] at same
    omega
  · rename_i later
    rw [UInt64.le_iff_toNat_le] at later
    rw [UInt64.toNat_sub_of_le _ _ (UInt64.le_iff_toNat_le.mpr (by omega)), greatest] at same
    omega

/-- An operation that leaves the member and the pause alone, and does not start a timer that is paused. -/
theorem Kept.same {t : Timer} (kept : Kept s) (same : t.pausedDueIn = s.timer.pausedDueIn)
    (idle : s.timer.active = false → t.active = false) : Kept ⟨t, s.paused⟩ := by
  refine ⟨fun running => same.trans (kept.running running), fun due paused => ?_⟩
  obtain ⟨stopped, member, other⟩ := kept.paused due paused
  exact ⟨idle stopped, same.trans member, other⟩

theorem kept_of_running {t : Timer} (member : t.pausedDueIn = UvTimer.greatest) : Kept ⟨t, none⟩ :=
  ⟨fun _ => member, nofun⟩

private theorem again_pausedDueIn (t : Timer) : t.again.2.pausedDueIn = t.pausedDueIn := by
  simp only [again]
  split
  · rfl
  · rfl

theorem Kept.step (kept : Kept s) (allowed : Allowed s op) : Kept (s.step op) := by
  cases op with
  | start | once | reset | clear => exact kept_of_running (kept.running allowed)
  | stop => exact kept_of_running rfl
  | again =>
    have same : s.timer.paused .again s.paused = none := by
      change (if _ then _ else s.paused) = none
      rw [show s.paused = none from allowed, ite_self]
    rw [Watched.step, same]
    exact kept_of_running ((again_pausedDueIn s.timer).trans (kept.running allowed))
  | pause =>
    change Kept ⟨s.timer.pause, if s.timer.active = true then _ else _⟩
    unfold pause
    cases running : s.timer.active with
    | false => exact kept
    | true =>
      refine ⟨nofun, ?_⟩
      rintro _ ⟨⟩
      exact ⟨rfl, rfl, dueIn_ne_greatest _ allowed⟩
  | resume =>
    change Kept ⟨s.timer.resume.2, if s.timer.resume.1 = none then none else s.paused⟩
    unfold resume
    split
    · exact kept
    · exact kept_of_running rfl
  | setRpt => exact kept.same rfl id
  | expire =>
    refine kept.same rfl fun idle => ?_
    change (s.timer.impl.expire s.timer.time).active = false
    unfold UvTimer.expire
    rw [if_neg fun due => absurd (due.1.symm.trans idle) nofun]
    exact idle
  | update | tick => exact kept.same rfl id

theorem initial_kept (clock : UInt64) : Kept (initial clock) := ⟨fun _ => rfl, nofun⟩

/-- In a run of allowed operations, `resume` succeeds if and only if the timer is paused; the timer is active then, with
the same repeat, and due after the time that was left. -/
theorem run_resume (ops : List Op) (clock : UInt64) 
    (meets : MeetsAll Watched.step Allowed (ops ++ [.resume]) (initial clock)) :
    ((run ops (initial clock)).timer.resume.1 = none ↔ (run ops (initial clock)).paused.isSome = true) ∧
      ∀ due, (run ops (initial clock)).paused = some due →
        (run ops (initial clock)).timer.resume.2.active = true ∧
          (run ops (initial clock)).timer.resume.2.rpt = (run ops (initial clock)).timer.rpt ∧
          (run ops (initial clock)).timer.resume.2.dueIn = due := by
  obtain ⟨before, last⟩ := meets.append
  have kept : Kept (run ops (initial clock)) :=
    before.keeps (fun _ _ allowed kept => Kept.step kept allowed) (initial_kept clock)
  change MeetsAll _ _ _ (run ops (initial clock)) at last
  generalize run ops (initial clock) = s at kept last
  refine ⟨resume_iff kept, fun due paused => ?_⟩
  have fits : s.timer.clock.toNat + due.toNat < 2 ^ 64 := last.1 due paused
  obtain ⟨idle, same, other⟩ := kept.paused due paused
  have started : ¬ (s.timer.active = true ∨ s.timer.pausedDueIn = UvTimer.greatest) := by
    rw [idle, same]
    rintro (running | greatest)
    · cases running
    · exact other greatest
  have member : s.timer.updateTime.pausedDueIn = due := same
  simp only [resume, if_neg started, member]
  by_cases zero : s.timer.rpt = 0
  · have once : s.timer.updateTime.rpt = 0 := zero
    simp only [once, ne_eq, not_true_eq_false, if_false]
    exact ⟨rfl, zero.symm, dueIn_start fits _ s.timer.impl⟩
  · have again : s.timer.updateTime.rpt ≠ 0 := zero
    rw [if_pos again]
    exact ⟨rfl, rfl, dueIn_start fits _ s.timer.impl⟩

/-- A timer is paused after 20 of 40 milliseconds. -/
def pausedOps : List Op := [.start 40 40, .tick 120, .update, .pause, .pause, .tick 150, .update]

private theorem pausedOps_meets : MeetsAll Watched.step Allowed (pausedOps ++ [.resume]) (initial 100) := by
  refine ⟨rfl, trivial, trivial, by decide +kernel, by decide +kernel, trivial, trivial, ?_, trivial⟩
  intro due paused
  obtain rfl : due = 20 := (Option.some.inj paused).symm
  exact (by omega : 150 + 20 < 2 ^ 64)

theorem pausedOps_resume :
    (run pausedOps (initial 100)).paused = some 20 ∧
      ((run pausedOps (initial 100)).timer.resume.1 = none ↔ (run pausedOps (initial 100)).paused.isSome = true) ∧
      ∀ due, (run pausedOps (initial 100)).paused = some due →
        (run pausedOps (initial 100)).timer.resume.2.active = true ∧
          (run pausedOps (initial 100)).timer.resume.2.rpt = (run pausedOps (initial 100)).timer.rpt ∧
          (run pausedOps (initial 100)).timer.resume.2.dueIn = due :=
  ⟨by decide +kernel, run_resume pausedOps 100 pausedOps_meets⟩

/-- A pause is ended by `reset`, and another by `once`, after which the timer expires. -/
def staleOps : List Op × List Op :=
  ([.start 40 40, .pause, .reset], [.once 40, .pause, .once 10, .tick 200, .update, .expire])

/-- Both timers are not paused, and are started again by `resume`. -/
theorem staleOps_resume :
    (run staleOps.1 (initial 100)).paused = none ∧ (run staleOps.1 (initial 100)).timer.resume.1 = none ∧
      (run staleOps.2 (initial 100)).paused = none ∧ (run staleOps.2 (initial 100)).timer.resume.1 = none := by
  decide +kernel

end UniEvent.Timer
