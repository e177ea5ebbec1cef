import UniEvent.Model.FsPoll
import UniEvent.Program.Machine

/-! # What a poll reports

`prev_err` is set by the first error and never cleared, neither by a success nor by `stop`, and an error that comes back
first is reported twice. A listener that throws is told the same again. A poll reports every change and only changes as
long as every start is answered by a success first, nothing but errors follow an error, and its listeners neither stop
it nor throw.
-/

namespace UniEvent.FsPoll

variable {σ : Type} [Inhabited σ] [DecidableEq σ] {s : World σ} {o : Outcome σ}

def Outcome.IsStat (o : Outcome σ) : Prop := o.err? = none

instance (o : Outcome σ) : Decidable o.IsStat := inferInstanceAs (Decidable (_ = none))

/-- What may come back to the request that is awaited. -/
def Allowed (s : World σ) : Op σ → Prop
  | .complete req o reactions =>
    s.self.active = true ∧ s.self.fsr = req →
      (∀ reaction ∈ reactions, reaction = {}) ∧ (s.last = none → o.IsStat) ∧
        (o.IsStat → ∀ r ∈ s.reports, r.now.IsStat)
  | _ => True

instance (s : World σ) (op : Op σ) : Decidable (Allowed s op) := by
  apply Op.casesOn (motive := fun op => Decidable (Allowed s op)) <;> intros <;> unfold Allowed <;> infer_instance

/-- What the members stand for. -/
structure Inv (s : World σ) : Prop where
  reports : ∀ r ∈ s.reports, r.fired = expected r.last r.now
  fetched : s.self.fetched = true ↔ s.last ≠ none
  stat : ∀ value, s.last = some (.stat value) → s.self.prev = value ∧ s.self.prevErr = none
  failed : ∀ err, s.last = some (.failed err) → s.self.prevErr = some err
  clear : (∀ r ∈ s.reports, r.now.IsStat) → s.self.prevErr = none

omit [Inhabited σ] [DecidableEq σ] in
private theorem cancel_frame (s : World σ) :
    s.cancel.self = s.self ∧ s.cancel.last = s.last ∧ s.cancel.reports = s.reports := by
  unfold World.cancel
  split
  · exact ⟨rfl, rfl, rfl⟩
  · exact ⟨rfl, rfl, rfl⟩

theorem Inv.stop (inv : Inv s) : Inv s.stop := by
  unfold World.stop
  split
  · exact inv
  · let m : World σ := { s with self := { s.self with active := false, prev := default }, last := none }
    obtain ⟨self, last, reports⟩ := cancel_frame m
    change Inv { m.cancel with self := { m.cancel.self with fetched := false } }
    have gone : m.cancel.last = none := last
    refine ⟨?_, ?_, ?_, ?_, ?_⟩
    · exact fun r among => inv.reports r (reports ▸ among)
    · exact ⟨nofun, fun some' => absurd gone some'⟩
    · exact fun value same => absurd (gone.symm.trans same) nofun
    · exact fun err same => absurd (gone.symm.trans same) nofun
    · intro stats
      change m.cancel.self.prevErr = none
      rw [self]
      exact inv.clear fun r among => stats r (reports ▸ among)

omit [DecidableEq σ] in
/-- A listener that does nothing. -/
theorem fire_quiet {event : Fired σ} {report : Report σ} {before : List (Report σ)}
    (quiet : ∀ reaction ∈ s.reactions, reaction = {}) (reports : s.reports = report :: before) :
    s.fire event = .ok { s with
      reactions := s.reactions.tail
      reports := { report with fired := report.fired ++ [event] } :: before } := by
  have head : s.reactions.headD {} = {} := by
    cases same : s.reactions with
    | nil => rfl
    | cons reaction rest => exact quiet reaction (same ▸ List.mem_cons_self ..)
  simp only [World.fire, head, reports]
  rfl

/-- What is fired for a success. -/
theorem fetch_stat (value : σ) (quiet : ∀ reaction ∈ s.reactions, reaction = {}) (clear : s.self.prevErr = none) :
    ∃ reactions, (s.receive (.stat value)).fetch (.stat value) = .ok { s with
      self := { s.self with prev := value, fetched := true }
      last := some (.stat value)
      reactions := reactions
      reports := ⟨s.last, .stat value,
        if s.self.fetched = false then [.start (some value) none]
        else if s.self.prev = value then [] else [.poll (some s.self.prev) (some value) none]⟩ :: s.reports } := by
  simp only [World.fetch, World.receive, clear]
  cases fetched : s.self.fetched with
  | false =>
    simp only [World.initialNotify, fire_quiet (s := { s with
      last := some (.stat value), reports := ⟨s.last, .stat value, []⟩ :: s.reports }) quiet rfl]
    simp [clear]
  | true =>
    by_cases same : s.self.prev = value
    · refine ⟨s.reactions, ?_⟩
      simp [same, clear]
      rfl
    · simp only [World.notify, fire_quiet (s := { s with
        last := some (.stat value), reports := ⟨s.last, .stat value, []⟩ :: s.reports }) quiet rfl]
      simp [same, clear]

/-- What is fired for an error that is not the first to come back. -/
theorem fetch_failed (err : Err) (quiet : ∀ reaction ∈ s.reactions, reaction = {})
    (fetched : s.self.fetched = true) :
    ∃ reactions, (s.receive (.failed err)).fetch (.failed err) = .ok { s with
      self := { s.self with prevErr := some err, fetched := true }
      last := some (.failed err)
      reactions := reactions
      reports := ⟨s.last, .failed err,
        if s.self.prevErr = some err then []
        else [.poll (if s.self.prevErr = none then some s.self.prev else none) none (some err)]⟩ :: s.reports } := by
  have awake : ¬ s.self.fetched = false := by
    rw [fetched]
    exact nofun
  by_cases same : s.self.prevErr = some err
  · refine ⟨s.reactions, ?_⟩
    simp [World.fetch, World.receive, same]
    rfl
  · simp only [World.fetch, World.receive, if_neg awake, pure_bind]
    simp only [World.notify, fire_quiet (s := { s with
      self := { s.self with prevErr := some err }
      last := some (.failed err)
      reports := ⟨s.last, .failed err, []⟩ :: s.reports }) quiet rfl]
    simp [same, Ne.symm same, fetched]
    rfl

theorem Inv.fetch (inv : Inv s) (quiet : ∀ reaction ∈ s.reactions, reaction = {})
    (first : s.last = none → o.IsStat) (later : o.IsStat → ∀ r ∈ s.reports, r.now.IsStat) :
    Inv (.after ((s.receive o).fetch o)) := by
  cases o with
  | stat value =>
    have clear := inv.clear (later rfl)
    obtain ⟨reactions, same⟩ := fetch_stat value quiet clear
    rw [same]
    refine ⟨fun r among => ?_, ⟨nofun, fun _ => rfl⟩, ?_, nofun, fun _ => clear⟩
    · rcases List.mem_cons.mp among with rfl | among
      · change (if s.self.fetched = false then _ else _) = expected s.last (.stat value)
        cases last : s.last with
        | none =>
          have idle : s.self.fetched = false := by
            rw [← Bool.not_eq_true, inv.fetched, last]
            exact fun some' => some' rfl
          rw [if_pos idle]
          rfl
        | some before =>
          have fetched : s.self.fetched = true := inv.fetched.mpr (by rw [last]; exact nofun)
          cases before with
          | stat prev =>
            rw [(inv.stat prev last).1, fetched]
            simp only [expected, Outcome.stat.injEq]
            rfl
          | failed err => exact absurd (clear.symm.trans (inv.failed err last)) nofun
      · exact inv.reports r among
    · rintro _ ⟨⟩
      exact ⟨rfl, clear⟩
  | failed err =>
    have some' : s.last ≠ none := fun none' => absurd (first none') nofun
    obtain ⟨reactions, same⟩ := fetch_failed err quiet (inv.fetched.mpr some')
    rw [same]
    refine ⟨fun r among => ?_, ⟨nofun, fun _ => rfl⟩, nofun, ?_, fun stats => ?_⟩
    · rcases List.mem_cons.mp among with rfl | among
      · change (if s.self.prevErr = some err then _ else _) = expected s.last (.failed err)
        cases last : s.last with
        | none => exact absurd last some'
        | some before =>
          cases before with
          | stat prev =>
            obtain ⟨value, clear⟩ := inv.stat prev last
            rw [value, clear]
            rfl
          | failed before =>
            rw [inv.failed before last]
            simp only [expected, Option.some.injEq, Outcome.failed.injEq]
            rfl
      · exact inv.reports r among
    · rintro _ ⟨⟩
      rfl
    · exact absurd (stats _ (List.mem_cons_self ..)) nofun

omit [Inhabited σ] in
theorem Inv.start {t : World σ} (inv : Inv s) (started : s.start = some t) : Inv t := by
  unfold World.start at started
  split at started
  · cases started
  · cases started
    split
    · exact { inv with }
    · exact { inv with }

theorem Inv.step {op : Op σ} (inv : Inv s) (allowed : Allowed s op) : Inv (step s op) := by
  cases op with
  | start =>
    change Inv (s.start.getD s)
    cases started : s.start with
    | none => exact inv
    | some t => exact inv.start started
  | stop => exact inv.stop
  | tick =>
    change Inv s.tick
    unfold World.tick
    split
    · exact { inv with }
    · exact inv
  | complete req o reactions =>
    let m : World σ := { s with reactions := reactions }
    have inv : Inv m := { inv with }
    change Inv (m.complete req o)
    unfold World.complete
    split
    · have inv : Inv { m with busy := m.busy.erase req } :=
        { inv with }
      dsimp only
      split
      · exact inv
      · rename_i awaited
        obtain ⟨quiet, first, later⟩ := allowed (by simpa using awaited)
        exact inv.fetch quiet first later
    · exact inv
  | script cancels => exact { inv with }

theorem initial_inv : Inv (initial : World σ) := ⟨nofun, ⟨nofun, nofun⟩, nofun, nofun, fun _ => rfl⟩

/-- Everything that comes back while the poll runs is reported as it should. -/
theorem run_reports (ops : List (Op σ)) (meets : Program.MeetsAll step Allowed ops initial) :
    ∀ r ∈ (run ops (initial : World σ)).reports, r.fired = expected r.last r.now :=
  (meets.keeps (fun _ _ allowed inv => Inv.step inv allowed) initial_inv).reports

/-- A file changes and is removed; the second start has a request of its own. -/
def changeOps : List (Op ℕ) :=
  [.start, .complete 0 (.stat 1) [], .tick, .complete 0 (.stat 1) [], .tick, .complete 0 (.stat 2) [], .tick,
    .script [false], .stop, .start, .complete 0 (.failed .canceled) [], .complete 1 (.stat 2) [], .tick,
    .complete 1 (.failed (.other 2)) [], .tick, .complete 1 (.failed (.other 2)) []]

theorem changeOps_reports :
    (run changeOps initial).reports.map Report.fired =
        [[], [.poll (some 2) none (some (.other 2))], [.start (some 2) none], [.poll (some 1) (some 2) none], [],
          [.start (some 1) none]] ∧
      ∀ r ∈ (run changeOps (initial : World ℕ)).reports, r.fired = expected r.last r.now :=
  ⟨by decide +kernel, run_reports changeOps (by decide +kernel)⟩

/-- A file that is not there at first, and one that is gone for a while. -/
def errorOps : List (Op ℕ) × List (Op ℕ) :=
  ([.start, .complete 0 (.failed (.other 2)) []],
    [.start, .complete 0 (.stat 1) [], .tick, .complete 0 (.failed (.other 2)) [], .tick, .complete 0 (.stat 1) []])

/-- The listener throws when it is told of the first stat. -/
def throwOps : List (Op ℕ) :=
  [.start, .complete 0 (.stat 1) [{ throws := true }], .tick, .complete 0 (.stat 1) []]

/-- The first is reported by both events, and the other is not reported when it is back. What a listener throws at is
reported again. -/
theorem errorOps_reports :
    (run errorOps.1 initial).reports =
        [⟨none, .failed (.other 2), [.start none (some (.other 2)), .poll (some 0) none (some (.other 2))]⟩] ∧
      (run errorOps.2 initial).reports.head? = some ⟨some (.failed (.other 2)), .stat 1, []⟩ ∧
      (run throwOps initial).reports =
        [⟨some (.stat 1), .stat 1, [.start (some 1) none]⟩, ⟨none, .stat 1, [.start (some 1) none]⟩] := by
  decide +kernel

end UniEvent.FsPoll
