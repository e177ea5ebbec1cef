import UniEvent.Model.FilterList
import Mathlib.Data.List.Induction
import Mathlib.Data.List.Nodup
import Mathlib.Data.List.TakeWhile

/-! # The chain of filters is sorted

One pass of `add_filter` looks for a filter of the same type and for the first one with a larger priority. The chain
stays sorted and holds each type once, by the filter added last; filters of equal priority stand in the order in which
their types came into the chain. A type that is removed and added again comes in anew.
-/

namespace UniEvent.FilterList

variable {ι τ π : Type} [Preorder π] {filter : StreamFilter ι τ π} {filters : List (StreamFilter ι τ π)}
  {front back : List (StreamFilter ι τ π)} {next : List (StreamFilter ι τ π)} {old : StreamFilter ι τ π}

/-! ### One pass -/

section

variable [DecidableEq τ] [DecidableLT π]

/-- A filter of the same type ends the search. -/
theorem search_same (others : ∀ f ∈ front, f.type ≠ filter.type) (same : old.type = filter.type) (it : ℕ)
    (pos : Option ℕ) : search filter it pos (front ++ old :: back) = .same (it + front.length) := by
  induction front generalizing it pos with
  | nil => simp [search, same]
  | cons f front ih =>
    rw [List.cons_append, search, if_neg (others f List.mem_cons_self),
      ih fun g member => others g (List.mem_cons_of_mem _ member)]
    simp only [List.length_cons, Nat.add_assoc, Nat.add_comm 1]

/-- The position that is found stays. -/
theorem search_found {back : List (StreamFilter ι τ π)} (others : ∀ f ∈ back, f.type ≠ filter.type) (it pos : ℕ) :
    search filter it (some pos) back = .through (some pos) := by
  induction back generalizing it with
  | nil => rfl
  | cons f back ih =>
    rw [search, if_neg (others f List.mem_cons_self), if_neg fun found => Option.some_ne_none _ found.2]
    exact ih (fun g member => others g (List.mem_cons_of_mem _ member)) _

/-- No filter of the same type and no larger priority. -/
theorem search_through {front : List (StreamFilter ι τ π)} (others : ∀ f ∈ front, f.type ≠ filter.type)
    (small : ∀ f ∈ front, ¬ filter.priority < f.priority) (it : ℕ) (back : List (StreamFilter ι τ π)) :
    search filter it none (front ++ back) = search filter (it + front.length) none back := by
  induction front generalizing it with
  | nil => rfl
  | cons f front ih =>
    rw [List.cons_append, search, if_neg (others f List.mem_cons_self),
      if_neg fun found => small f List.mem_cons_self found.1,
      ih (fun g member => others g (List.mem_cons_of_mem _ member))
        fun g member => small g (List.mem_cons_of_mem _ member)]
    simp only [List.length_cons, Nat.add_assoc, Nat.add_comm 1]

private theorem insertIdx_length {α : Type} (front back : List α) (x : α) :
    (front ++ back).insertIdx front.length x = front ++ x :: back := by
  induction front with
  | nil => rfl
  | cons y front ih =>
    rw [List.cons_append, List.length_cons, List.insertIdx_succ_cons, ih, List.cons_append]

/-- A filter takes the place of the one of its type. -/
theorem insertFilter_same (others : ∀ f ∈ front, f.type ≠ filter.type) (same : old.type = filter.type) :
    insertFilter filter (front ++ old :: back) = front ++ filter :: back := by
  rw [insertFilter, search_same others same]
  simp

/-- A filter of a new type goes before the first one with a larger priority. -/
theorem insertFilter_new (others : ∀ f ∈ front ++ back, f.type ≠ filter.type)
    (small : ∀ f ∈ front, ¬ filter.priority < f.priority)
    (large : ∀ f, back.head? = some f → filter.priority < f.priority) :
    insertFilter filter (front ++ back) = front ++ filter :: back := by
  rw [insertFilter, search_through (fun f member => others f (List.mem_append_left _ member)) small, Nat.zero_add]
  cases back with
  | nil => simp [search]
  | cons f back =>
    rw [search, if_neg (others f (by simp)), if_pos ⟨large f rfl, rfl⟩,
      search_found fun g member => others g (by simp [member])]
    exact insertIdx_length front (f :: back) filter

/-- What `add_filter` makes of the chain. -/
inductive Inserted (filter : StreamFilter ι τ π) :
    List (StreamFilter ι τ π) → List (StreamFilter ι τ π) → Prop where
  | same {front back : List (StreamFilter ι τ π)} {old : StreamFilter ι τ π} (same : old.type = filter.type) :
    Inserted filter (front ++ old :: back) (front ++ filter :: back)
  | new {front back : List (StreamFilter ι τ π)} (others : ∀ f ∈ front ++ back, f.type ≠ filter.type)
    (small : ∀ f ∈ front, ¬ filter.priority < f.priority)
    (large : ∀ f, back.head? = some f → filter.priority < f.priority) :
    Inserted filter (front ++ back) (front ++ filter :: back)

private theorem inserted (filter : StreamFilter ι τ π) (filters : List (StreamFilter ι τ π)) :
    Inserted filter filters (insertFilter filter filters) := by
  cases known : getFilter filter.type filters with
  | some old =>
    obtain ⟨same, front, back, rfl, others⟩ := List.find?_eq_some_iff_append.mp known
    have same : old.type = filter.type := of_decide_eq_true same
    rw [insertFilter_same (fun f member => by simpa using others f member) same]
    exact .same same
  | none =>
    have others : ∀ f ∈ filters, f.type ≠ filter.type := fun f member =>
      by simpa using List.find?_eq_none.mp known f member
    let small (f : StreamFilter ι τ π) : Bool := ¬ filter.priority < f.priority
    rw [← List.takeWhile_append_dropWhile (p := small) (l := filters)] at others ⊢
    have front (f : StreamFilter ι τ π) (member : f ∈ filters.takeWhile small) : ¬ filter.priority < f.priority := by
      have holds : small f = true := List.mem_takeWhile_imp member
      exact of_decide_eq_true holds
    have back (f : StreamFilter ι τ π) (first : (filters.dropWhile small).head? = some f) :
        filter.priority < f.priority := by
      have stopped := List.head?_dropWhile_not small filters
      rw [first] at stopped
      exact not_not.mp (of_decide_eq_false stopped)
    rw [insertFilter_new others front back]
    exact .new others front back

end

/-! ### The chain and the registry -/

/-- Whether a filter may stand before another, by their types and priorities. -/
def Before (since : τ → ℕ) (f g : τ × π) : Prop :=
  ¬ g.2 < f.2 ∧ (f.2 ≤ g.2 → g.2 ≤ f.2 → since f.1 < since g.1)

/-- The type and the priority. -/
def StreamFilter.key (f : StreamFilter ι τ π) : τ × π := (f.type, f.priority)

/-- The chain holds what the registry says, in order. -/
structure Reflects (filters : List (StreamFilter ι τ π)) (r : Registry ι τ π) : Prop where
  types : (filters.map StreamFilter.type).Nodup
  typed : ∀ type f, r.held type = some f → f.type = type
  mem : ∀ f, f ∈ filters ↔ r.held f.type = some f
  before : filters.Pairwise fun f g => Before r.since f.key g.key
  past : ∀ f ∈ filters, r.since f.type < r.calls

namespace Reflects

variable {r : Registry ι τ π}

theorem later (reflects : Reflects filters r) : Reflects filters { r with calls := r.calls + 1 } :=
  { reflects with past := fun f member => Nat.lt_succ_of_lt (reflects.past f member) }

private theorem held_none (reflects : Reflects filters r) {type : τ} (others : ∀ f ∈ filters, f.type ≠ type) :
    r.held type = none := by
  cases held : r.held type with
  | none => rfl
  | some f =>
    have same := reflects.typed type f held
    rw [← same] at held
    exact absurd same (others f ((reflects.mem f).mpr held))

theorem unique (reflects : Reflects filters r) {f g : StreamFilter ι τ π} (first : f ∈ filters) (second : g ∈ filters)
    (same : f.type = g.type) : f = g := by
  have held := (reflects.mem f).mp first
  rw [same, (reflects.mem g).mp second] at held
  exact (Option.some.inj held).symm

/-- The filters from the first one of a larger priority on are not below that one. -/
theorem above {since : τ → ℕ} {back : List (StreamFilter ι τ π)}
    (sorted : back.Pairwise fun f g => Before since f.key g.key)
    (large : ∀ f, back.head? = some f → filter.priority < f.priority) (g : StreamFilter ι τ π) (member : g ∈ back) :
    ∃ level, filter.priority < level ∧ ¬ g.priority < level := by
  cases back with
  | nil => cases member
  | cons f rest =>
    refine ⟨f.priority, large f rfl, ?_⟩
    rcases List.mem_cons.mp member with rfl | behind
    · exact lt_irrefl _
    · exact ((List.pairwise_cons.mp sorted).1 g behind).1

variable [DecidableEq τ]

theorem typed_update (reflects : Reflects filters r) (held : Option (StreamFilter ι τ π))
    (own : ∀ f, held = some f → f.type = filter.type) (type : τ) (f : StreamFilter ι τ π)
    (found : Function.update r.held filter.type held type = some f) : f.type = type := by
  by_cases same : type = filter.type
  · subst same
    rw [Function.update_self] at found
    exact own f found
  · rw [Function.update_of_ne same] at found
    exact reflects.typed type f found

/-- The chain has the new filter, and the old ones of other types. -/
theorem mem_add (reflects : Reflects filters r)
    (members : ∀ f, f ∈ next ↔ f = filter ∨ f ∈ filters ∧ f.type ≠ filter.type) (f : StreamFilter ι τ π) :
    f ∈ next ↔ (r.add filter).held f.type = some f := by
  rw [members, Registry.add]
  by_cases same : f.type = filter.type
  · simp [same, eq_comm]
  · have other : f ≠ filter := fun equal => same (congrArg _ equal)
    simp only [Function.update_of_ne same, same, other, reflects.mem f, false_or, ne_eq, not_false_eq_true, and_true]

/-- A filter takes the place of one of its type and priority. -/
theorem replace (reflects : Reflects (front ++ old :: back) r) (same : old.type = filter.type)
    (level : old.priority = filter.priority) : Reflects (front ++ filter :: back) (r.add filter) := by
  have key : filter.key = old.key := by rw [StreamFilter.key, StreamFilter.key, same, level]
  have there : r.held filter.type = some old := by
    rw [← same]
    exact (reflects.mem old).mp (by simp)
  have since : (r.add filter).since = r.since := by rw [Registry.add, if_neg (by simp [there])]
  have types := reflects.types
  rw [List.map_append, List.map_cons, same] at types
  have apart : ∀ f ∈ front ++ back, f.type ≠ filter.type := by
    intro f member equal
    have absent := (List.nodup_middle.mp types).notMem
    rw [← List.map_append, ← equal] at absent
    exact absent (List.mem_map_of_mem member)
  refine ⟨?_, reflects.typed_update _ fun f found => ?_, reflects.mem_add fun f => ?_, ?_, ?_⟩
  · rwa [List.map_append, List.map_cons]
  · rw [Option.some.inj found]
  · have other : f ∈ front ++ back → f.type ≠ filter.type := apart f
    simp only [List.mem_append, List.mem_cons] at other ⊢
    constructor
    · rintro (first | rfl | second)
      · exact .inr ⟨.inl first, other (.inl first)⟩
      · exact .inl rfl
      · exact .inr ⟨.inr (.inr second), other (.inr second)⟩
    · rintro (rfl | ⟨first | rfl | second, different⟩)
      · exact .inr (.inl rfl)
      · exact .inl first
      · exact absurd same different
      · exact .inr (.inr second)
  · rw [since, ← List.pairwise_map, List.map_append, List.map_cons, key, ← List.map_cons, ← List.map_append,
      List.pairwise_map]
    exact reflects.before
  · intro f member
    rw [since]
    rcases List.mem_append.mp member with first | rest
    · exact reflects.past f (List.mem_append_left _ first)
    · rcases List.mem_cons.mp rest with rfl | second
      · rw [← same]
        exact reflects.past old (by simp)
      · exact reflects.past f (by simp [second])

/-- A filter of a new type goes before the first one of a larger priority. -/
theorem insert (reflects : Reflects (front ++ back) r) (others : ∀ f ∈ front ++ back, f.type ≠ filter.type)
    (small : ∀ f ∈ front, ¬ filter.priority < f.priority)
    (large : ∀ f, back.head? = some f → filter.priority < f.priority) :
    Reflects (front ++ filter :: back) { r.add filter with calls := r.calls + 1 } := by
  have since : (r.add filter).since = Function.update r.since filter.type r.calls := by
    rw [Registry.add, if_pos (reflects.held_none others)]
  have kept (f : StreamFilter ι τ π) (member : f ∈ front ++ back) :
      (r.add filter).since f.type = r.since f.type := by
    rw [since, Function.update_of_ne (others f member)]
  have old : (front ++ back).Pairwise fun f g => Before (r.add filter).since f.key g.key := by
    refine reflects.before.imp_of_mem fun {f g} first second before => ?_
    refine ⟨before.1, fun le ge => ?_⟩
    change (r.add filter).since f.type < (r.add filter).since g.type
    rw [kept f first, kept g second]
    exact before.2 le ge
  obtain ⟨first, second, cross⟩ := List.pairwise_append.mp old
  have newest : (r.add filter).since filter.type = r.calls := by rw [since, Function.update_self]
  refine ⟨?_, reflects.typed_update _ fun f found => ?_, reflects.mem_add fun f => ?_, ?_, ?_⟩
  · rw [List.map_append, List.map_cons, List.nodup_middle, ← List.map_append, List.nodup_cons]
    refine ⟨fun member => ?_, reflects.types⟩
    obtain ⟨f, there, same⟩ := List.mem_map.mp member
    exact others f there same
  · rw [Option.some.inj found]
  · have other : f ∈ front ++ back → f.type ≠ filter.type := others f
    simp only [List.mem_append, List.mem_cons] at other ⊢
    tauto
  · refine List.pairwise_append.mpr
      ⟨first, List.pairwise_cons.mpr ⟨fun g behind => ?_, second⟩, fun f ahead g rest => ?_⟩
    · obtain ⟨level, below, reached⟩ := above second large g behind
      exact ⟨fun less => reached (less.trans below), fun _ le => absurd (le.trans_lt below) reached⟩
    · rcases List.mem_cons.mp rest with rfl | behind
      · refine ⟨small f ahead, fun _ _ => ?_⟩
        have member : f ∈ front ++ back := List.mem_append_left _ ahead
        change (r.add g).since f.type < (r.add g).since g.type
        rw [kept f member, newest]
        exact reflects.past f member
      · exact cross f ahead g behind
  · intro f member
    change (r.add filter).since f.type < r.calls + 1
    rcases List.mem_cons.mp (List.perm_middle.mem_iff.mp member) with rfl | there
    · rw [newest]
      exact Nat.lt_succ_self _
    · rw [kept f there]
      exact Nat.lt_succ_of_lt (reflects.past f there)

theorem remove [DecidableEq ι] [DecidableEq π] (reflects : Reflects filters r) (filter : StreamFilter ι τ π) :
    Reflects (filters.erase filter) (r.remove filter) := by
  by_cases there : r.held filter.type = some filter
  · have nodup : filters.Nodup := .of_map _ reflects.types
    rw [Registry.remove, if_pos there]
    refine ⟨(List.erase_sublist.map _).nodup reflects.types, reflects.typed_update none nofun, fun f => ?_,
      reflects.before.sublist List.erase_sublist, fun f member => reflects.past f (List.mem_of_mem_erase member)⟩
    rw [nodup.mem_erase_iff]
    by_cases same : f.type = filter.type
    · constructor
      · rintro ⟨other, member⟩
        exact absurd (reflects.unique member ((reflects.mem filter).mpr there) same) other
      · intro found
        simp only [same, Function.update_self] at found
        cases found
    · have other : f ≠ filter := fun equal => same (congrArg _ equal)
      simp only [Function.update_of_ne same, other, reflects.mem f, ne_eq, not_false_eq_true, true_and]
  · have absent : filter ∉ filters := fun member => there ((reflects.mem filter).mp member)
    rw [Registry.remove, if_neg there, List.erase_of_not_mem absent]
    exact reflects

end Reflects

/-! ### Every sequence of calls -/

section

variable {priorityOf : τ → π} {r : Registry ι τ π}

/-- The filters of one type have one priority. -/
def Uniform (priorityOf : τ → π) (filters : List (StreamFilter ι τ π)) : Prop :=
  ∀ f ∈ filters, f.priority = priorityOf f.type

theorem Inserted.reflects [DecidableEq τ] (change : Inserted filter filters next) (reflects : Reflects filters r)
    (uniform : Uniform priorityOf (filter :: filters)) : Reflects next { r.add filter with calls := r.calls + 1 } := by
  cases change with
  | same same =>
    refine (reflects.replace same ?_).later
    rw [uniform _ (List.mem_cons_of_mem _ (by simp)), uniform filter List.mem_cons_self, same]
  | new others small large => exact reflects.insert others small large

theorem Inserted.subset (change : Inserted filter filters next) : next ⊆ filter :: filters := by
  cases change with
  | same => grind
  | new => grind

/-- The chain follows the registry, and its filters are among those that were added. -/
structure Follows (priorityOf : τ → π) (filters : List (StreamFilter ι τ π)) (r : Registry ι τ π) : Prop where
  reflects : Reflects filters r
  uniform : Uniform priorityOf filters

/-- What is asked of a call: a filter that is added has the priority of its type. -/
def Call.Uniform (priorityOf : τ → π) : Call ι τ π → Prop
  | .add filter _ _ => filter.priority = priorityOf filter.type
  | .remove _ _ _ => True

variable [DecidableEq ι] [DecidableEq τ] [DecidableEq π] [DecidableLT π]

private theorem step_add (filters : List (StreamFilter ι τ π)) (filter : StreamFilter ι τ π) (force active : Bool) :
    step filters (.add filter force active) =
      if force ∨ active = false then insertFilter filter filters else filters := by
  cases force <;> cases active <;> rfl

private theorem step_remove (filters : List (StreamFilter ι τ π)) (filter : StreamFilter ι τ π) (force active : Bool) :
    step filters (.remove filter force active) =
      if force ∨ active = false then filters.erase filter else filters := by
  cases force <;> cases active <;> rfl

omit [Preorder π] [DecidableLT π] in
theorem Registry.remove_calls (r : Registry ι τ π) (filter : StreamFilter ι τ π) :
    (r.remove filter).calls = r.calls := by
  rw [Registry.remove]
  split
  · rfl
  · rfl

theorem Follows.step (follows : Follows priorityOf filters r) {call : Call ι τ π} (uniform : call.Uniform priorityOf) :
    Follows priorityOf (step filters call) (r.step call) := by
  cases call with
  | add filter force active =>
    rw [step_add, Registry.step, Registry.allowed]
    split
    · have all : FilterList.Uniform priorityOf (filter :: filters) :=
        List.forall_mem_cons.mpr ⟨uniform, follows.uniform⟩
      have change := inserted filter filters
      exact ⟨change.reflects follows.reflects all, fun f member => all f (change.subset member)⟩
    · exact ⟨follows.reflects.later, follows.uniform⟩
  | remove filter force active =>
    rw [step_remove, Registry.step, Registry.allowed]
    split
    · have removed := (follows.reflects.remove filter).later
      rw [Registry.remove_calls] at removed
      exact ⟨removed, fun f member => follows.uniform f (List.mem_of_mem_erase member)⟩
    · exact ⟨follows.reflects.later, follows.uniform⟩

private theorem run_follows {calls : List (Call ι τ π)} (uniform : ∀ call ∈ calls, call.Uniform priorityOf) :
    Follows priorityOf (run calls) (Registry.run calls) := by
  induction calls using List.reverseRecOn with
  | nil => exact ⟨⟨List.nodup_nil, nofun, by simp [run, Registry.run], .nil, nofun⟩, nofun⟩
  | append_singleton calls call ih =>
    rw [run, Registry.run, List.foldl_append, List.foldl_append]
    have before := ih fun call member => uniform call (List.mem_append_left _ member)
    exact before.step (uniform call (by simp))

omit [DecidableEq ι] [DecidableEq π] [DecidableLT π] in
theorem Reflects.getFilter_eq (reflects : Reflects filters r) (type : τ) : getFilter type filters = r.held type := by
  cases found : getFilter type filters with
  | none =>
    refine (reflects.held_none fun f member => ?_).symm
    simpa using List.find?_eq_none.mp found f member
  | some f =>
    have same : f.type = type := by simpa using List.find?_some found
    rw [← same]
    exact ((reflects.mem f).mp (List.mem_of_find?_eq_some found)).symm

/-- After every sequence of calls, no filter has a smaller priority than one before it, filters of equal priority stand
in the order in which their types came into the chain, each type is there once, by the filter added last, and
`get_filter` returns that. -/
theorem run_sorted {calls : List (Call ι τ π)} (uniform : ∀ call ∈ calls, call.Uniform priorityOf) :
    ((run calls).Pairwise fun f g => ¬ g.priority < f.priority ∧ (f.priority ≤ g.priority → g.priority ≤ f.priority →
      (Registry.run calls).since f.type < (Registry.run calls).since g.type)) ∧
    ((run calls).map StreamFilter.type).Nodup ∧
    (∀ f, f ∈ run calls ↔ (Registry.run calls).held f.type = some f) ∧
    ∀ type, getFilter type (run calls) = (Registry.run calls).held type := by
  have reflects := (run_follows uniform).reflects
  exact ⟨reflects.before, reflects.types, reflects.mem, reflects.getFilter_eq⟩

end

/-- The first call that adds a filter of the type. -/
def firstInsertion [DecidableEq τ] (type : τ) (calls : List (Call ι τ π)) : Option ℕ :=
  calls.findIdx? fun call => match call with
    | .add filter _ _ => filter.type = type
    | .remove _ _ _ => false

/-- Two types of one priority, the first of which is removed and added again. -/
def readded : List (Call ℕ Bool ℕ) :=
  [.add ⟨1, true, 1⟩ false false, .add ⟨2, false, 1⟩ false false, .remove ⟨1, true, 1⟩ false false,
    .add ⟨3, true, 1⟩ false false]

theorem readded_sorted : run readded = [⟨2, false, 1⟩, ⟨3, true, 1⟩] ∧
    (run readded).Pairwise fun f g => ¬ g.priority < f.priority := by
  have uniform : ∀ call ∈ readded, call.Uniform fun _ => 1 := by
    simp [readded, Call.Uniform]
  exact ⟨rfl, (run_sorted uniform).1.imp And.left⟩

/-- A type that was inserted first stands last. -/
theorem readded_first : (run readded).map StreamFilter.type = [false, true] ∧
    (∀ f ∈ run readded, f.priority = 1) ∧ firstInsertion true readded = some 0 ∧
    firstInsertion false readded = some 1 := by
  decide

end UniEvent.FilterList
