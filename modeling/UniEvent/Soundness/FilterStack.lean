import UniEvent.Model.FilterChain
import UniEvent.Program.Machine

/-! # Completions go back through the filters

While a request is in the chain, `last_filter` is the filter that received it last, and the filters before that one are
those that received it earlier (`State.Handed`). A request that ends before it gets to the chain still has the
`last_filter` of its previous submission, and its completion starts there.
-/

namespace UniEvent.FilterChain

variable {ι : Type} [DecidableEq ι] {s : State ι} {filter : ι}

/-! ### The chain -/

private theorem next_split {before after : List ι} (nodup : (before ++ filter :: after).Nodup) :
    next filter (before ++ filter :: after) = after.head? := by
  induction before with
  | nil =>
    cases after with
    | nil => rfl
    | cons second rest => simp [next]
  | cons first before ih =>
    have different : first ≠ filter := by
      rintro rfl
      simp at nodup
    rw [List.cons_append, List.nodup_cons] at nodup
    rw [← ih nodup.2]
    cases before with
    | nil => simp [next, different]
    | cons second before => simp [next, different]

private theorem prev_absent {filters : List ι} (absent : filter ∉ filters.tail) : prev filter filters = none := by
  induction filters with
  | nil => rfl
  | cons first rest ih =>
    cases rest with
    | nil => rfl
    | cons second rest =>
      rw [List.tail_cons, List.mem_cons, not_or] at absent
      rw [prev, if_neg (Ne.symm absent.1)]
      exact ih absent.2

private theorem prev_split {before after : List ι} (nodup : (before ++ filter :: after).Nodup) :
    prev filter (before ++ filter :: after) = before.getLast? := by
  induction before with
  | nil => exact prev_absent (List.nodup_cons.mp nodup).1
  | cons first before ih =>
    rw [List.cons_append, List.nodup_cons] at nodup
    cases before with
    | nil => simp [prev]
    | cons second before =>
      have different : second ≠ filter := by
        rintro rfl
        simp at nodup
      have rest := ih nodup.2
      rw [List.cons_append] at rest
      rw [List.cons_append, List.cons_append, prev, if_neg different, rest, List.getLast?_cons_cons]

/-- The way back from a filter goes through those before it. -/
theorem climb_split {older after : List ι} (nodup : (older.reverse ++ filter :: after).Nodup) {n : ℕ}
    (enough : older.length < n) : climb (older.reverse ++ filter :: after) n (some filter) = filter :: older := by
  induction older generalizing filter after n with
  | nil =>
    obtain ⟨n, rfl⟩ : ∃ m, n = m + 1 := Nat.exists_eq_succ_of_ne_zero (Nat.ne_of_gt enough)
    rw [climb, prev_split nodup]
    cases n <;> rfl
  | cons second older ih =>
    obtain ⟨n, rfl⟩ : ∃ m, n = m + 1 := Nat.exists_eq_succ_of_ne_zero (by omega)
    rw [climb, prev_split nodup, List.getLast?_reverse, List.head?_cons]
    rw [List.reverse_cons, List.append_assoc, List.singleton_append] at nodup ⊢
    rw [ih nodup (by simpa using enough)]

/-! ### One submission -/

/-- The handlers are called on the filters that received the request, each once, the last one first, and then on the
stream. -/
def Report.Stacked (report : Report ι) : Prop :=
  report.calls = report.received.map Call.handle ++ [Call.finalize] ∧ report.received.Nodup

/-- When the calls are in order. -/
def Report.Judged (report : Report ι) : Prop := report.Stacked ↔ report.reached = true ∨ report.stale = none

namespace State

omit [DecidableEq ι]

/-- The request has not been in the chain. -/
structure Untouched (s : State ι) : Prop where
  reached : s.reached = false
  received : s.received = []
  lastFilter : s.lastFilter = s.stale

/-- The request is in the chain, or has left it for the backend. -/
structure Handed (s : State ι) : Prop where
  reached : s.reached = true
  lastFilter : s.lastFilter = s.received.head?
  front : s.received.reverse <+: s.chain.filters

/-- What is known in each phase. -/
def Tracked (s : State ι) : Prop :=
  match s.phase with
  | .idle => True
  | .queued | .refused => s.Untouched
  | .held filter => s.Handed ∧ s.received.head? = some filter
  | .backend => s.Untouched ∨ s.Handed

end State

theorem State.Untouched.judged (untouched : s.Untouched) :
    Report.Judged ⟨s.stale, s.reached, s.received, s.handleEvent⟩ := by
  obtain ⟨reached, received, lastFilter⟩ := untouched
  unfold Report.Judged Report.Stacked State.handleEvent
  rw [reached, received, lastFilter]
  cases s.stale with
  | none => simp [climb]
  | some filter => simp [climb]

theorem State.Handed.climbs (handed : s.Handed) :
    climb s.chain.filters (s.chain.filters.length + 1) s.lastFilter = s.received := by
  obtain ⟨rest, chain⟩ := handed.front
  rw [handed.lastFilter]
  cases received : s.received with
  | nil => rfl
  | cons filter older =>
    rw [received, List.reverse_cons, List.append_assoc, List.singleton_append] at chain
    have nodup := s.chain.nodup
    rw [← chain] at nodup ⊢
    refine climb_split nodup ?_
    rw [List.length_append, List.length_reverse]
    omega

theorem State.Handed.judged (handed : s.Handed) : Report.Judged ⟨s.stale, s.reached, s.received, s.handleEvent⟩ := by
  have calls : s.handleEvent = s.received.map Call.handle ++ [Call.finalize] := by rw [handleEvent, handed.climbs]
  have once : s.received.Nodup := List.nodup_reverse.mp (handed.front.sublist.nodup s.chain.nodup)
  exact ⟨fun _ => Or.inl handed.reached, fun _ => ⟨calls, once⟩⟩

namespace State

omit [DecidableEq ι] in
private theorem pass_handed (untouched : s.Untouched) :
    s.pass.Handed ∧
      (s.pass.phase = .backend ∨ ∃ filter, s.pass.phase = .held filter ∧ s.pass.received.head? = some filter) := by
  unfold pass
  cases chain : s.chain.filters with
  | nil => exact ⟨⟨rfl, by rw [untouched.received]; rfl, by rw [untouched.received]; exact List.nil_prefix⟩, Or.inl rfl⟩
  | cons first rest =>
    refine ⟨⟨rfl, rfl, ?_⟩, Or.inr ⟨first, rfl, rfl⟩⟩
    change [first] <+: s.chain.filters
    rw [chain]
    exact ⟨rest, rfl⟩

omit [DecidableEq ι] in
private theorem pass_tracked (untouched : s.Untouched) : s.pass.Tracked := by
  obtain ⟨handed, backend | ⟨filter, held, head⟩⟩ := pass_handed untouched
  · rw [Tracked, backend]
    exact Or.inr handed
  · rw [Tracked, held]
    exact ⟨handed, head⟩

omit [DecidableEq ι] in
private theorem exec_tracked (untouched : s.Untouched) (outConnected : Bool) : (s.exec outConnected).Tracked := by
  unfold exec
  cases s.kind with
  | write | shutdown =>
    unfold execConnected
    split_ifs
    · exact pass_tracked untouched
    · exact { untouched with }
  | tcpConnect | pipeConnect =>
    unfold execConnect
    split_ifs
    · exact Or.inl { untouched with }
    · exact pass_tracked untouched

private theorem forward_tracked (handed : s.Handed) (head : s.received.head? = some filter) :
    (s.forward filter).Tracked := by
  obtain ⟨rest, chain⟩ := handed.front
  obtain ⟨older, received⟩ : ∃ older, s.received = filter :: older := by
    cases same : s.received with
    | nil => simp [same] at head
    | cons first older =>
      obtain rfl : first = filter := by simpa [same] using head
      exact ⟨older, rfl⟩
  have split : s.chain.filters = older.reverse ++ filter :: rest := by
    rw [← chain, received, List.reverse_cons, List.append_assoc, List.singleton_append]
  have following : next filter s.chain.filters = rest.head? := by
    have nodup := s.chain.nodup
    rw [split] at nodup ⊢
    exact next_split nodup
  unfold forward
  rw [following]
  cases rest with
  | nil => exact Or.inr { handed with }
  | cons second rest =>
    refine ⟨⟨handed.reached, rfl, rest, ?_⟩, rfl⟩
    change (second :: s.received).reverse ++ rest = s.chain.filters
    rw [split, received]
    simp

/-- What holds between the steps. -/
def Honest (s : State ι) : Prop := s.Tracked ∧ ∀ report ∈ s.reports, report.Judged

private theorem finish_honest (honest : s.Honest) (active : s.phase ≠ .idle) : s.finish.Honest := by
  refine ⟨trivial, List.forall_mem_cons.mpr ⟨?_, honest.2⟩⟩
  have tracked := honest.1
  unfold Tracked at tracked
  cases phase : s.phase with
  | idle => exact absurd phase active
  | queued | refused =>
    rw [phase] at tracked
    exact Untouched.judged tracked
  | held filter =>
    rw [phase] at tracked
    exact tracked.1.judged
  | backend =>
    rw [phase] at tracked
    exact tracked.elim Untouched.judged Handed.judged

omit [DecidableEq ι] in
private theorem pass_reports (s : State ι) : s.pass.reports = s.reports := by
  unfold pass
  split <;> rfl

omit [DecidableEq ι] in
private theorem exec_reports (s : State ι) (outConnected : Bool) : (s.exec outConnected).reports = s.reports := by
  unfold exec execConnected execConnect
  split <;> split_ifs <;> first | rfl | exact s.pass_reports

private theorem forward_reports (s : State ι) (filter : ι) : (s.forward filter).reports = s.reports := by
  unfold forward
  split <;> rfl

theorem step_honest {s t : State ι} {move : Move ι} (honest : s.Honest) (step : s.step move = some t) : t.Honest := by
  obtain ⟨tracked, judged⟩ := honest
  unfold Tracked at tracked
  cases move with
  | setFilters chain =>
    simp only [State.step] at step
    split at step <;> cases step <;> rename_i phase <;> rw [phase] at tracked
    · exact ⟨by rw [Tracked, phase]; trivial, judged⟩
    · exact ⟨by rw [Tracked, phase]; exact { tracked with }, judged⟩
    · exact ⟨by rw [Tracked, phase]; exact { tracked with }, judged⟩
  | submit =>
    simp only [State.step] at step
    split at step <;> cases step
    exact ⟨⟨rfl, rfl, rfl⟩, judged⟩
  | exec outConnected =>
    simp only [State.step] at step
    split at step <;> cases step
    rename_i phase
    rw [phase] at tracked
    exact ⟨exec_tracked tracked outConnected, by rw [exec_reports]; exact judged⟩
  | forward =>
    simp only [State.step] at step
    split at step <;> cases step
    rename_i filter phase
    rw [phase] at tracked
    exact ⟨forward_tracked tracked.1 tracked.2, by rw [forward_reports]; exact judged⟩
  | finish =>
    simp only [State.step] at step
    split at step <;> cases step
    rename_i active
    exact finish_honest ⟨tracked, judged⟩ active

end State

end UniEvent.FilterChain
