import UniEvent.Model.Delayer

/-! # Delayed callbacks run once, in order

The ids in the two lists follow each other without a gap, also after an exception has put what was left of one in front
of the other. So a cancel finds the callback that it is meant for and no other.
-/

namespace UniEvent.Delayer

open Program Program.Exec

variable {s t : World} {list : List Callback} {row : Callback} {trace : List Event} {id : ℕ} {event : Event}

/-! ### What the trace says -/

/-- How many callbacks were delayed; the id of the last one. -/
def issued : List Event → ℕ
  | [] => 0
  | .add _ :: before => issued before + 1
  | _ :: before => issued before

/-- The last callback that was delayed before the last call. -/
def base : List Event → ℕ
  | [] => 0
  | .call :: before => issued before
  | _ :: before => base before

/-- A callback with this id was delayed, and then canceled. -/
def Canceled (id : ℕ) : List Event → Prop
  | [] => False
  | .cancel other :: before => (other = id ∧ 1 ≤ id ∧ id ≤ issued before) ∨ Canceled id before
  | _ :: before => Canceled id before

def guardOf (id : ℕ) : List Event → Option ℕ
  | [] => none
  | .add guard :: before => if id = issued before + 1 then guard else guardOf id before
  | _ :: before => guardOf id before

/-- Its guard was destroyed. -/
def Orphan (id : ℕ) (trace : List Event) : Prop := ∃ guard, guardOf id trace = some guard ∧ .kill guard ∈ trace

/-- A callback is run after those with smaller ids, not in the call in which it was delayed, not after it was canceled,
and not without its guard. When a call has returned, all callbacks delayed before it have been run, but for these. -/
def OnceAt : Event → List Event → Prop
  | .invoke id, before =>
    1 ≤ id ∧ id ≤ base before ∧ (∀ other, .invoke other ∈ before → other < id) ∧ ¬ Canceled id before ∧
      ¬ Orphan id before
  | .returned, before =>
    ∀ id, 1 ≤ id → id ≤ base before → .invoke id ∈ before ∨ Canceled id before ∨ Orphan id before
  | _, _ => True

/-! ### Lists without gaps -/

/-- The ids follow each other, from the first one. -/
def Runs (first : ℕ) (list : List Callback) : Prop := list.map Callback.id = List.range' first list.length

theorem Runs.cons {first : ℕ} : Runs first (row :: list) ↔ row.id = first ∧ Runs (first + 1) list := by
  simp [Runs, List.range'_succ]

theorem Runs.append {first : ℕ} {front back : List Callback} :
    Runs first (front ++ back) ↔ Runs first front ∧ Runs (first + front.length) back := by
  induction front generalizing first with
  | nil => simp [Runs]
  | cons row front ih =>
    rw [List.cons_append, Runs.cons, Runs.cons, ih, List.length_cons, and_assoc]
    rw [show first + 1 + front.length = first + (front.length + 1) by omega]

theorem Runs.id_of_mem {first : ℕ} (runs : Runs first list) (among : row ∈ list) :
    first ≤ row.id ∧ row.id < first + list.length := by
  have among : row.id ∈ List.range' first list.length := runs ▸ List.mem_map_of_mem among
  simpa using among

theorem Runs.id_of_getElem {first k : ℕ} (runs : Runs first list) (here : list[k]? = some row) :
    row.id = first + k := by
  obtain ⟨less, _⟩ := List.getElem?_eq_some_iff.mp here
  have same := congrArg (fun ids => ids[k]?) runs
  simp only [List.getElem?_map, here, Option.map_some, List.getElem?_range' less, Option.some.injEq, Nat.one_mul]
    at same
  exact same

/-- The callback is taken out. -/
def clear (id : ℕ) (row : Callback) : Callback := if row.id = id then { row with cb := false } else row

private theorem clear_id (id : ℕ) (row : Callback) : (clear id row).id = row.id := by
  unfold clear
  split
  · rfl
  · rfl

theorem Runs.clear {first : ℕ} (runs : Runs first list) (id : ℕ) : Runs first (list.map (Delayer.clear id)) := by
  have same : Callback.id ∘ Delayer.clear id = Callback.id := funext (clear_id id)
  rw [Runs, List.map_map, List.length_map, same]
  exact runs

theorem map_clear_of_other {first id : ℕ} (runs : Runs first list) (other : id < first ∨ first + list.length ≤ id) :
    list.map (clear id) = list := by
  refine (List.map_congr_left fun row among => ?_).trans (List.map_id _)
  have bounds := runs.id_of_mem among
  exact if_neg (by omega)

/-- A callback of the list is found by the difference of the ids. -/
theorem modify_eq_map {first : ℕ} (runs : Runs first list) (k : ℕ) :
    list.modify k (fun row => { row with cb := false }) = list.map (clear (first + k)) := by
  induction list generalizing first k with
  | nil => cases k <;> rfl
  | cons row list ih =>
    obtain ⟨same, rest⟩ := Runs.cons.mp runs
    cases k with
    | zero =>
      rw [List.modify_zero_cons, List.map_cons, map_clear_of_other rest (.inl (by omega))]
      simp [clear, same]
    | succ k =>
      rw [List.modify_succ_cons, List.map_cons, ih rest k, show first + 1 + k = first + (k + 1) by omega]
      simp [clear, same]

private theorem delayerCancel_eq {first : ℕ} (runs : Runs first list) (id : ℕ) :
    delayerCancel list id = (decide (first ≤ id ∧ id < first + list.length), list.map (clear id)) := by
  cases list with
  | nil => simp [delayerCancel]
  | cons front rest =>
    have same : front.id = first := (Runs.cons.mp runs).1
    simp only [delayerCancel, same]
    split
    · rename_i smaller
      rw [map_clear_of_other runs (.inl smaller), decide_eq_false (by omega)]
    · split
      · rename_i least greater
        rw [map_clear_of_other runs (.inr (by omega)), decide_eq_false (by omega)]
      · rename_i least less
        rw [modify_eq_map runs, show first + (id - first) = id by omega, decide_eq_true (by omega)]

/-- Both lists are searched. -/
theorem cancel_eq {first : ℕ} {d : Delayer} (runs : Runs first (d.reserve ++ d.callbacks)) (id : ℕ) :
    (d.cancel id).2 =
      { d with callbacks := d.callbacks.map (clear id), reserve := d.reserve.map (clear id) } := by
  obtain ⟨reserve, callbacks⟩ := Runs.append.mp runs
  simp only [cancel, delayerCancel_eq callbacks, delayerCancel_eq reserve]
  split
  · rename_i found
    obtain ⟨among, rfl⟩ := Prod.mk.inj found
    rw [decide_eq_true_eq] at among
    rw [map_clear_of_other reserve (.inr (by omega))]
  · rename_i missed
    obtain ⟨-, rfl⟩ := Prod.mk.inj missed
    rfl

/-! ### The invariant -/

/-- The callbacks not yet reached. -/
def World.pending (s : World) : List Callback := s.self.reserve.drop s.i ++ s.self.callbacks

/-- The id of the first callback in the lists. -/
def World.first (s : World) : ℕ := s.self.lastid + 1 - (s.self.reserve ++ s.self.callbacks).length

/-- A callback that will not be run any more. -/
def Past (id : ℕ) (trace : List Event) : Prop := .invoke id ∈ trace ∨ Canceled id trace ∨ Orphan id trace

structure Inv (s : World) : Prop where
  along : Along OnceAt s.trace
  issued : issued s.trace = s.self.lastid
  dead : ∀ guard, guard ∈ s.dead ↔ .kill guard ∈ s.trace
  fits : (s.self.reserve ++ s.self.callbacks).length ≤ s.self.lastid
  runs : Runs s.first (s.self.reserve ++ s.self.callbacks)
  reached : s.i ≤ s.self.reserve.length
  row : ∀ row ∈ s.pending, (row.cb = true ↔ ¬ Canceled row.id s.trace) ∧ row.guard = guardOf row.id s.trace
  past : ∀ id, 1 ≤ id → id < s.first + s.i → Past id s.trace
  order : ∀ id, .invoke id ∈ s.trace → id < s.first + s.i

/-- Inside a call, what the reserve has was delayed before it. -/
structure Inside (s : World) : Prop extends Inv s where
  before : base s.trace + 1 = s.first + s.self.reserve.length

/-- What an action leaves as it is. -/
structure Same (s t : World) : Prop where
  i : t.i = s.i
  length : t.self.reserve.length = s.self.reserve.length
  first : t.first = s.first
  base : base t.trace = base s.trace

theorem Inside.of_same (inside : Inside s) (inv : Inv t) (same : Same s t) : Inside t := by
  refine ⟨inv, ?_⟩
  rw [same.base, same.first, same.length]
  exact inside.before

private theorem canceled_le (canceled : Canceled id trace) : id ≤ Delayer.issued trace := by
  induction trace with
  | nil => exact canceled.elim
  | cons event before ih =>
    cases event with
    | cancel other =>
      rcases canceled with now | earlier
      · exact now.2.2
      · exact ih earlier
    | add => exact Nat.le_succ_of_le (ih canceled)
    | _ => exact ih canceled

theorem World.whole (s : World) : s.self.reserve ++ s.self.callbacks = s.self.reserve.take s.i ++ s.pending := by
  rw [World.pending, ← List.append_assoc, List.take_append_drop]

theorem Inv.taken (inv : Inv s) : (s.self.reserve.take s.i).length = s.i := List.length_take_of_le inv.reached

theorem Inv.length (inv : Inv s) : (s.self.reserve ++ s.self.callbacks).length = s.i + s.pending.length := by
  rw [s.whole, List.length_append, inv.taken]

theorem Inv.pending_id (inv : Inv s) (among : row ∈ s.pending) : s.first + s.i ≤ row.id ∧ row.id ≤ s.self.lastid := by
  have fits := inv.fits
  have runs := inv.runs
  rw [s.whole] at runs
  have bounds := (Runs.append.mp runs).2.id_of_mem among
  have length := inv.length
  rw [inv.taken] at bounds
  have first : s.first = s.self.lastid + 1 - (s.self.reserve ++ s.self.callbacks).length := rfl
  omega

/-! ### Events -/

private theorem canceled_cons (event : Event) (canceled : Canceled id trace) : Canceled id (event :: trace) := by
  cases event with
  | cancel other => exact .inr canceled
  | _ => exact canceled

private theorem guardOf_cons (event : Event) (old : id ≤ Delayer.issued trace) :
    guardOf id (event :: trace) = guardOf id trace := by
  cases event with
  | add guard => exact if_neg (by omega)
  | _ => rfl

theorem Past.cons (past : Past id trace) (event : Event) (old : id ≤ Delayer.issued trace) :
    Past id (event :: trace) := by
  rcases past with run | canceled | ⟨guard, same, killed⟩
  · exact .inl (List.mem_cons_of_mem _ run)
  · exact .inr (.inl (canceled_cons event canceled))
  · exact .inr (.inr ⟨guard, (guardOf_cons event old).trans same, List.mem_cons_of_mem _ killed⟩)

section

variable (inv : Inv s)

include inv

theorem Inv.past_cons (event : Event) (positive : 1 ≤ id) (reached : id < s.first + s.i) :
    Past id (event :: s.trace) := by
  refine (inv.past id positive reached).cons event ?_
  have fits := inv.fits
  have least := inv.reached
  have first : s.first = s.self.lastid + 1 - (s.self.reserve ++ s.self.callbacks).length := rfl
  rw [List.length_append] at fits first
  rw [inv.issued]
  omega

theorem Inv.dead_cons (other : ∀ guard, event ≠ .kill guard) (guard : ℕ) :
    guard ∈ s.dead ↔ .kill guard ∈ event :: s.trace := by
  rw [inv.dead, List.mem_cons, or_iff_right fun same => other guard same.symm]

theorem Inv.order_cons (other : ∀ id, event ≠ .invoke id) (invoked : .invoke id ∈ event :: s.trace) :
    id < s.first + s.i :=
  inv.order id ((List.mem_cons.mp invoked).resolve_left fun same => other id same.symm)

private theorem add_keeps (guard : Option ℕ) :
    Inv ({ s with self := s.self.add guard }.log (.add guard)) ∧
      Same s ({ s with self := s.self.add guard }.log (.add guard)) := by
  let t : World := { s with self := s.self.add guard }.log (.add guard)
  have fits := inv.fits
  have length : (t.self.reserve ++ t.self.callbacks).length = (s.self.reserve ++ s.self.callbacks).length + 1 := by
    simp [t, World.log, add, Nat.add_assoc]
  have first : t.first = s.first := by
    rw [World.first, World.first, length]
    change s.self.lastid + 1 + 1 - _ = _
    omega
  have least : s.first + (s.self.reserve ++ s.self.callbacks).length = s.self.lastid + 1 := by
    rw [World.first]
    omega
  refine ⟨⟨⟨trivial, inv.along⟩, congrArg (· + 1) inv.issued, fun g => ?_, ?_, ?_, inv.reached, ?_, ?_, ?_⟩,
    rfl, rfl, first, rfl⟩
  · exact inv.dead_cons (by simp) g
  · rw [length]
    exact Nat.succ_le_succ fits
  · change Runs t.first (s.self.reserve ++ (s.self.callbacks ++ [_]))
    rw [first, ← List.append_assoc, Runs.append]
    refine ⟨inv.runs, Runs.cons.mpr ⟨?_, rfl⟩⟩
    exact least.symm
  · intro row among
    have among : row ∈ s.pending ++ [⟨s.self.lastid + 1, true, guard⟩] := by
      rw [World.pending, List.append_assoc]
      exact among
    rcases List.mem_append.mp among with among | among
    · obtain ⟨cb, same⟩ := inv.row row among
      refine ⟨cb, same.trans (guardOf_cons _ ?_).symm⟩
      rw [inv.issued]
      exact (inv.pending_id among).2
    · rw [List.mem_singleton.mp among]
      constructor
      · refine ⟨fun _ canceled => ?_, fun _ => rfl⟩
        have least : s.self.lastid + 1 ≤ Delayer.issued s.trace := canceled_le canceled
        rw [inv.issued] at least
        exact Nat.not_succ_le_self _ least
      · change guard = if s.self.lastid + 1 = Delayer.issued s.trace + 1 then guard else _
        rw [inv.issued, if_pos rfl]
  · intro id positive reached
    change id < t.first + s.i at reached
    rw [first] at reached
    exact inv.past_cons _ positive reached
  · intro id invoked
    change id < t.first + s.i
    rw [first]
    exact inv.order_cons (by simp) invoked

theorem cancel_keeps (id : ℕ) :
    Inv ({ s with self := (s.self.cancel id).2 }.log (.cancel id)) ∧
      Same s ({ s with self := (s.self.cancel id).2 }.log (.cancel id)) := by
  rw [cancel_eq inv.runs]
  let t : World := { s with self := { s.self with
    callbacks := s.self.callbacks.map (clear id), reserve := s.self.reserve.map (clear id) } }.log (.cancel id)
  have lists : t.self.reserve ++ t.self.callbacks = (s.self.reserve ++ s.self.callbacks).map (clear id) :=
    List.map_append.symm
  have length : (t.self.reserve ++ t.self.callbacks).length = (s.self.reserve ++ s.self.callbacks).length := by
    rw [lists, List.length_map]
  have first : t.first = s.first := by
    rw [World.first, World.first, length]
    rfl
  have pending : t.pending = s.pending.map (clear id) := by
    rw [World.pending, World.pending, List.map_append, List.map_drop]
    rfl
  have count : t.self.reserve.length = s.self.reserve.length := List.length_map _
  refine ⟨⟨⟨trivial, inv.along⟩, inv.issued, fun g => ?_, ?_, ?_, ?_, ?_, ?_, ?_⟩, rfl, count, first, rfl⟩
  · exact inv.dead_cons (by simp) g
  · rw [length]
    exact inv.fits
  · rw [first, lists]
    exact inv.runs.clear id
  · rw [count]
    exact inv.reached
  · intro row' among
    change row' ∈ t.pending at among
    rw [pending] at among
    obtain ⟨row, mine, rfl⟩ := List.mem_map.mp among
    obtain ⟨cb, guard⟩ := inv.row row mine
    obtain ⟨least, most⟩ := inv.pending_id mine
    have fits := inv.fits
    have positive : 1 ≤ row.id := by
      rw [World.first] at least
      omega
    rw [clear_id]
    unfold clear
    split
    · rename_i same
      refine ⟨⟨nofun, fun other => absurd (.inl ⟨same.symm, positive, ?_⟩) other⟩, guard⟩
      rw [inv.issued]
      exact most
    · rename_i other
      refine ⟨cb.trans (not_congr ⟨.inr, fun canceled => ?_⟩), guard⟩
      exact canceled.resolve_left fun now => other now.1.symm
  · intro other positive reached
    change other < t.first + s.i at reached
    rw [first] at reached
    exact inv.past_cons _ positive reached
  · intro other invoked
    change other < t.first + s.i
    rw [first]
    exact inv.order_cons (by simp) invoked

private theorem kill_keeps (guard : ℕ) :
    Inv ({ s with dead := guard :: s.dead }.log (.kill guard)) ∧
      Same s ({ s with dead := guard :: s.dead }.log (.kill guard)) := by
  refine ⟨{ inv with along := ⟨trivial, inv.along⟩, dead := fun g => ?_, past := ?_, order := ?_ },
    rfl, rfl, rfl, rfl⟩
  · change g ∈ guard :: s.dead ↔ .kill g ∈ .kill guard :: s.trace
    rw [List.mem_cons, List.mem_cons, inv.dead, Event.kill.injEq]
  · exact fun id positive reached => inv.past_cons _ positive reached
  · exact fun id invoked => inv.order_cons (by simp) invoked

/-! ### A call -/

private theorem act_keeps (action : Action) : wp (act action) (fun _ t => Inv t ∧ Same s t) s := by
  cases action with
  | add guard => exact add_keeps inv guard
  | cancel id => exact cancel_keeps inv id
  | kill guard => exact kill_keeps inv guard
  | throw => exact ⟨inv, rfl, rfl, rfl, rfl⟩

end

theorem Same.trans {m : World} (first : Same s m) (second : Same m t) : Same s t :=
  ⟨second.i.trans first.i, second.length.trans first.length, second.first.trans first.first,
    second.base.trans first.base⟩

private theorem acts_keep (inv : Inv s) (actions : List Action) :
    wp (plain.acts actions) (fun _ t => Inv t ∧ Same s t) s := by
  induction actions generalizing s with
  | nil => exact ⟨inv, rfl, rfl, rfl, rfl⟩
  | cons a rest ih =>
    simp only [Object.acts, plain_act]
    rw [wp_bind]
    refine wp_mono (act_keeps inv a) ?_
    rintro (_ | why) m ⟨inv', same⟩
    · rw [next_done]
      exact wp_mono (ih inv') fun _ t kept => ⟨kept.1, same.trans kept.2⟩
    · exact ⟨inv', same⟩

theorem Inv.here_id (inv : Inv s) (here : s.self.reserve[s.i]? = some row) :
    row.id = s.first + s.i := (Runs.append.mp inv.runs).1.id_of_getElem here

theorem Inv.here_pending (here : s.self.reserve[s.i]? = some row) : row ∈ s.pending := by
  obtain ⟨less, same⟩ := List.getElem?_eq_some_iff.mp here
  refine List.mem_append_left _ ?_
  rw [List.drop_eq_getElem_cons less, same]
  exact List.mem_cons_self ..

/-- The next callback, whether it was run or passed over. -/
theorem Inv.next (inv : Inv s) (here : s.self.reserve[s.i]? = some row) (along : Along OnceAt trace)
    (more : trace = s.trace ∨ trace = .invoke row.id :: s.trace) (past : Past row.id trace) :
    Inv { s with i := s.i + 1, trace := trace } := by
  obtain ⟨less, _⟩ := List.getElem?_eq_some_iff.mp here
  have id := inv.here_id here
  have rows (row' : Callback) (among : row' ∈ World.pending { s with i := s.i + 1, trace := trace }) :
      row' ∈ s.pending := by
    rcases List.mem_append.mp among with among | among
    · refine List.mem_append_left _ ?_
      change row' ∈ s.self.reserve.drop (s.i + 1) at among
      rw [← List.drop_drop] at among
      exact List.mem_of_mem_drop among
    · exact List.mem_append_right _ among
  rcases more with rfl | rfl
  · refine ⟨along, inv.issued, inv.dead, inv.fits, inv.runs, less,
      fun row' among => inv.row row' (rows row' among), ?_, ?_⟩
    · intro other positive reached
      change other < s.first + (s.i + 1) at reached
      rcases Nat.lt_or_ge other (s.first + s.i) with before | here
      · exact inv.past other positive before
      · rw [show other = row.id by omega]
        exact past
    · intro other invoked
      have before := inv.order other invoked
      change other < s.first + (s.i + 1)
      omega
  · refine ⟨along, inv.issued, fun g => ?_, inv.fits, inv.runs, less, fun row' among => inv.row row' (rows row' among),
      ?_, ?_⟩
    · exact inv.dead_cons (by simp) g
    · intro other positive reached
      change other < s.first + (s.i + 1) at reached
      rcases Nat.lt_or_ge other (s.first + s.i) with before | here
      · exact inv.past_cons _ positive before
      · rw [show other = row.id by omega]
        exact past
    · intro other invoked
      change other < s.first + (s.i + 1)
      rcases List.mem_cons.mp invoked with now | earlier
      · rw [Event.invoke.inj now]
        omega
      · have before := inv.order other earlier
        omega

/-- A callback that is taken out, or whose guard is gone. -/
theorem Inv.past_of_skipped (inv : Inv s) (among : row ∈ s.pending) (skipped : ¬ (row.cb = true ∧ ¬ s.expired row)) :
    Past row.id s.trace := by
  obtain ⟨cb, guard⟩ := inv.row row among
  by_cases canceled : Canceled row.id s.trace
  · exact .inr (.inl canceled)
  · have expired : s.expired row := not_not.mp fun alive => skipped ⟨cb.mpr canceled, alive⟩
    obtain ⟨g, same, dead⟩ := expired
    exact .inr (.inr ⟨g, guard.symm.trans same, (inv.dead g).mp dead⟩)

/-- The conditions under which a callback is run. -/
theorem Inside.once (inside : Inside s) (here : s.self.reserve[s.i]? = some row)
    (runs : row.cb = true ∧ ¬ s.expired row) : OnceAt (.invoke row.id) s.trace := by
  obtain ⟨less, _⟩ := List.getElem?_eq_some_iff.mp here
  obtain ⟨cb, guard⟩ := inside.row row (Inv.here_pending here)
  have id := inside.here_id here
  have before := inside.before
  have fits := inside.fits
  have first : s.first = s.self.lastid + 1 - (s.self.reserve ++ s.self.callbacks).length := rfl
  refine ⟨by omega, by omega, fun other earlier => ?_, cb.mp runs.1, ?_⟩
  · rw [id]
    exact inside.order other earlier
  · rintro ⟨g, same, killed⟩
    exact runs.2 ⟨g, guard.trans same, (inside.dead g).mpr killed⟩

private theorem loop_keeps (inside : Inside s) (n : ℕ) (left : s.self.reserve.length = s.i + n) :
    wp (plain.loop n) (fun o t => Inside t ∧ (o = .done () → t.i = t.self.reserve.length)) s := by
  induction n generalizing s with
  | zero => exact ⟨inside, fun _ => left.symm⟩
  | succ n ih =>
    obtain ⟨row, here⟩ : ∃ row, s.self.reserve[s.i]? = some row :=
      ⟨_, List.getElem?_eq_getElem (show s.i < s.self.reserve.length by omega)⟩
    simp only [Object.loop, plain_inherited]
    rw [wp_get_bind]
    simp only [show (plain.base s).self.reserve[(plain.base s).i]? = some row from here]
    rw [wp_modify_bind, wp_bind, wp_when]
    constructor
    · intro runs
      let m : World := { s with i := s.i + 1, trace := .invoke row.id :: s.trace }
      have inv : Inv m :=
        inside.toInv.next here ⟨inside.once here runs, inside.along⟩ (.inr rfl) (.inl (List.mem_cons_self ..))
      simp only [Object.invoke, plain_inherited]
      rw [wp_modify_bind, wp_get_bind, wp_modify_bind]
      have inside' : Inside { m with scripts := m.scripts.tail } :=
        ⟨{ inv with },
          inside.before⟩
      refine wp_mono (acts_keep inside'.toInv _) ?_
      rintro (_ | why) t ⟨kept, same⟩
      · refine ih (inside'.of_same kept same) ?_
        rw [same.length, same.i]
        change s.self.reserve.length = s.i + 1 + n
        omega
      · exact ⟨inside'.of_same kept same, nofun⟩
    · intro skipped
      have inv : Inv { s with i := s.i + 1 } :=
        inside.toInv.next here inside.along (.inl rfl) (inside.past_of_skipped (Inv.here_pending here) skipped)
      refine ih ⟨inv, inside.before⟩ ?_
      change s.self.reserve.length = s.i + 1 + n
      omega

/-- What is left goes back. -/
theorem Inv.giveBack (inv : Inv s) : Inv s.giveBack ∧ s.giveBack.first = s.first + s.i := by
  have lists : s.giveBack.self.callbacks = s.pending := by
    simp only [World.giveBack, World.pending]
    split
    · rfl
    · rename_i beyond
      rw [List.drop_eq_nil_of_le (by omega), List.nil_append]
  have length := inv.length
  have fits := inv.fits
  have first : s.giveBack.first = s.first + s.i := by
    rw [World.first, World.first, lists, length]
    change s.self.lastid + 1 - (([] : List Callback) ++ s.pending).length = _
    rw [List.nil_append]
    omega
  have runs := inv.runs
  rw [s.whole, Runs.append, inv.taken] at runs
  refine ⟨⟨inv.along, inv.issued, inv.dead, ?_, ?_, Nat.le_refl _, ?_, ?_, ?_⟩, first⟩
  · rw [lists]
    change (([] : List Callback) ++ s.pending).length ≤ s.self.lastid
    rw [List.nil_append]
    omega
  · rw [lists, first]
    exact runs.2
  · intro row among
    refine inv.row row ?_
    rw [← lists]
    exact (List.mem_append.mp among).resolve_left (by simp [World.giveBack])
  · intro id positive reached
    rw [first] at reached
    exact inv.past id positive reached
  · intro id invoked
    rw [first]
    exact inv.order id invoked

/-- Between the calls. -/
structure Rest (s : World) : Prop extends Inv s where
  reserve : s.self.reserve = []

/-- The notes of a call and of its end. -/
theorem Inv.log (inv : Inv s) (same : event = .call ∨ event = .returned) (right : OnceAt event s.trace) :
    Inv (s.log event) := by
  rcases same with rfl | rfl
  all_goals exact
    { inv with
      along := ⟨right, inv.along⟩
      dead := inv.dead_cons (by simp)
      past := fun _ positive reached => inv.past_cons _ positive reached
      order := fun _ invoked => inv.order_cons (by simp) invoked }

/-- The callbacks become the reserve. -/
theorem Rest.swap (rest : Rest s) : Inside { s.log .call with
    self := { s.self with callbacks := s.self.reserve, reserve := s.self.callbacks }, i := 0 } := by
  have inv := rest.toInv.log (.inl rfl) trivial
  have empty : s.self.reserve = [] := rest.reserve
  have i : s.i = 0 := by
    have reached := rest.reached
    rw [empty] at reached
    exact Nat.le_zero.mp reached
  obtain ⟨⟨callbacks, reserve, lastid⟩, _, dead, scripts, trace⟩ := s
  cases empty
  cases i
  have pending : ([] : List Callback) ++ callbacks = callbacks ++ [] := (List.append_nil _).symm
  have issued : Delayer.issued trace = lastid := rest.issued
  have fits : callbacks.length ≤ lastid := rest.fits
  refine ⟨⟨inv.along, inv.issued, inv.dead, ?_, ?_, Nat.zero_le _, ?_, ?_, ?_⟩, ?_⟩
  · rw [← pending]
    exact inv.fits
  · rw [World.first, ← pending]
    exact inv.runs
  · intro row among
    refine inv.row row ?_
    rw [World.pending, List.append_nil] at among
    exact among
  · rw [World.first, ← pending]
    exact inv.past
  · rw [World.first, ← pending]
    exact inv.order
  · rw [World.first, ← pending]
    change Delayer.issued trace + 1 = lastid + 1 - callbacks.length + callbacks.length
    omega

theorem call_keeps (rest : Rest s) : wp plain.call (fun o t => Along OnceAt t.trace ∧ (o.Returned → Rest t)) s := by
  simp only [Object.call, plain_inherited]
  rw [wp_modify_bind, wp_get_bind, wp_bind, wp_assert]
  refine ⟨fun _ => ?_, fun full => absurd rest.reserve full⟩
  rw [next_done, wp_modify_bind, wp_get_bind, wp_bind]
  simp only [scopeGuard]
  have inside := rest.swap
  rw [wp_bind, wp_attempt]
  refine wp_mono (loop_keeps inside _ (Nat.zero_add _).symm) ?_
  rintro (_ | why) t ⟨inside, done⟩
  · -- every callback was reached
    obtain ⟨inv, first⟩ := inside.toInv.giveBack
    have last : Inv (t.giveBack.log .returned) := by
      refine inv.log (.inr rfl) fun id positive before => inv.past id positive ?_
      have least := inside.before
      have reached := done rfl
      change id ≤ base t.trace at before
      rw [first]
      omega
    exact ⟨last.along, fun _ => ⟨last, rfl⟩⟩
  · cases why with
    | thrown =>
      obtain ⟨inv, _⟩ := inside.toInv.giveBack
      exact ⟨inv.along, fun _ => ⟨inv, rfl⟩⟩
    | _ => exact ⟨inside.along, (by rintro ⟨⟩)⟩

theorem perform_keeps (rest : Rest s) (op : Op) :
    wp (perform op) (fun o t => Along OnceAt t.trace ∧ (o.Returned → Rest t)) s := by
  cases op with
  | act action =>
    refine wp_mono (act_keeps rest.toInv action) fun o t kept => ⟨kept.1.along, fun _ => ⟨kept.1, ?_⟩⟩
    rw [← List.length_eq_zero_iff, kept.2.length, rest.reserve]
    rfl
  | call scripts =>
    have rest' : Rest { s with scripts := scripts } :=
      { rest with }
    exact call_keeps rest'

theorem initial_rest : Rest {} :=
  ⟨⟨trivial, rfl, fun _ => ⟨nofun, nofun⟩, Nat.le_refl _, rfl, Nat.le_refl _, nofun, fun id positive less => by
    have less : id < 1 := less
    omega, nofun⟩, rfl⟩

/-- The first of three callbacks delays another one and throws; the third one is canceled before the next call. -/
example : (run [.act (.add none), .act (.add none), .act (.add none), .call [[.add none, .throw]], .act (.cancel 3),
    .call []] {}).2.trace =
    [.returned, .invoke 4, .invoke 2, .call, .cancel 3, .add none, .invoke 1, .call, .add none, .add none,
      .add none] := by
  decide +kernel

end UniEvent.Delayer
