import UniEvent.Proofs.FileEnds

/-! # `FileOutput` and its buffers

A write is started by the callback of the open, by `write` with an empty list, and by the callback of the write before
it. As long as `write` is not called with an empty list from inside that callback, only one of them sees each
buffer. When the object is stopped, nothing may be left to write after what is being written.
-/

namespace UniEvent.FileEnds

open Program Program.Exec Relation

namespace Output

variable {ω : Type} {e : Listener (World Output ω)} {s t : World Output ω}

/-! ### The buffers in the trace -/

/-- The buffers given to `write`, oldest first. -/
def pushes : List Event → List Data
  | [] => []
  | .push data :: before => pushes before ++ [data]
  | _ :: before => pushes before

/-- The buffers passed to `Fs::write`, oldest first. -/
def transfers : List Event → List Data
  | [] => []
  | .transfer (.write _ data) :: before => transfers before ++ [data]
  | _ :: before => transfers before

/-- The number of writes that were completed. -/
def completed : List Event → ℕ
  | [] => 0
  | .written :: before => completed before + 1
  | _ :: before => completed before

/-- The buffers that are kept are those that are not completed; all before them were passed on, and as many of them as
are being written. -/
structure Line (trace : List Event) (bufs : List Data) (outstanding : ℕ) : Prop where
  kept : bufs = (pushes trace).drop (completed trace)
  passed : transfers trace = (pushes trace).take (completed trace + outstanding)
  bound : completed trace + outstanding ≤ (pushes trace).length

variable {trace : List Event} {bufs rest : List Data} {data front : Data} {count : ℕ}

theorem Line.push (line : Line trace bufs count) (data : Data) : Line (.push data :: trace) (bufs ++ [data]) count := by
  have bound := line.bound
  refine ⟨?_, ?_, ?_⟩
  · change _ = (pushes trace ++ [data]).drop (completed trace)
    rw [List.drop_append_of_le_length (by omega), line.kept]
  · change transfers trace = (pushes trace ++ [data]).take (completed trace + count)
    rw [List.take_append_of_le_length bound, line.passed]
  · change _ ≤ (pushes trace ++ [data]).length
    rw [List.length_append]
    exact bound.trans (Nat.le_add_right _ _)

theorem Line.write (line : Line trace (front :: rest) 0) (fd : ℕ) :
    Line (.transfer (.write fd front) :: trace) (front :: rest) 1 := by
  have here : (pushes trace)[completed trace]? = some front := by
    have first : ((pushes trace).drop (completed trace))[0]? = some front := by
      rw [← line.kept]
      rfl
    rw [List.getElem?_drop] at first
    exact first
  refine ⟨line.kept, ?_, ?_⟩
  · change transfers trace ++ [front] = (pushes trace).take (completed trace + 1)
    rw [List.take_add_one, here, line.passed]
    rfl
  · obtain ⟨inside, -⟩ := List.getElem?_eq_some_iff.mp here
    exact inside

theorem Line.pop (line : Line trace (front :: rest) 1) : Line (.written :: trace) rest 0 := by
  refine ⟨?_, line.passed, line.bound⟩
  change rest = (pushes trace).drop (completed trace + 1)
  rw [← List.tail_drop, ← line.kept]
  rfl

/-! ### The invariant -/

/-- The object is started when it is stopped and `stop` is not under way. It is not stopped while a request is active
that the backend does not give back, nor while more is to be written than what is being written; from inside the
callback of a write, nothing may be left. Nothing is written from inside `stop`, nor from inside the callback of a
write when the list is empty. -/
def Allowed : Call ω → World Output ω → Prop
  | .start, s => quiet s.trace = true ∧ s.stopping = 0
  | .stop gives, s => (s.fsreq.bind s.find ≠ none → gives = true) ∧
    (∀ req ∈ s.active, req.op ≠ .openFile → s.self.bufs.length ≤ 1) ∧ (0 < s.inside → s.self.bufs = [])
  | .write _, s => s.stopping = 0 ∧ (0 < s.inside → s.self.bufs ≠ [])
  | .owner _, _ => True

def isWrite : Op → Bool
  | .write _ _ => true
  | _ => false

/-- The number of writes that are active. -/
def outstanding (s : World Output ω) : ℕ := s.active.countP fun req => isWrite req.op

structure Inv (s : World Output ω) : Prop extends Base s where
  ops : ∀ req ∈ s.active, req.op = .openFile ∨
    (s.opened = true ∧ ∃ data rest, req.op = .write s.fd data ∧ s.self.bufs = data :: rest)
  held : 0 < s.inside → s.self.bufs ≠ [] → s.active = [] ∧ s.opened = true
  idle : s.opened = true → s.active = [] → s.inside = 0 → s.self.bufs = []
  line : Line s.trace s.self.bufs (outstanding s)
  size : s.self.bufsz = (s.self.bufs.map List.length).sum

/-- Wherever a call leads. -/
structure Leads (s t : World Output ω) : Prop where
  inv : Inv s → Inv t
  inside : Inv s → s.inside ≤ t.inside
  empty : Inv s → 0 < s.inside → s.self.bufs = [] → t.self.bufs = []

/-- A call that comes back. -/
structure Comes (s t : World Output ω) : Prop extends Leads s t where
  outside : Inv s → t.inside = s.inside
  stopping : Inv s → t.stopping = s.stopping

instance : Std.Refl (Leads (ω := ω)) := ⟨fun _ => ⟨id, fun _ => Nat.le_refl _, fun _ _ empty => empty⟩⟩

instance : Std.Refl (Comes (ω := ω)) := ⟨fun s => ⟨Std.Refl.refl s, fun _ => rfl, fun _ => rfl⟩⟩

instance : IsTrans (World Output ω) Leads :=
  ⟨fun _ _ _ first second => ⟨fun inv => second.inv (first.inv inv),
    fun inv => (first.inside inv).trans (second.inside (first.inv inv)),
    fun inv inside empty => second.empty (first.inv inv) (inside.trans_le (first.inside inv))
      (first.empty inv inside empty)⟩⟩

instance : IsTrans (World Output ω) Comes :=
  ⟨fun _ _ _ first second => ⟨IsTrans.trans _ _ _ first.toLeads second.toLeads,
    fun inv => (second.outside (first.inv inv)).trans (first.outside inv),
    fun inv => (second.stopping (first.inv inv)).trans (first.stopping inv)⟩⟩

/-- How a call ends. -/
structure Ends (s : World Output ω) (o : Outcome Unit) (t : World Output ω) : Prop where
  inv : Inv t
  inside : s.inside ≤ t.inside
  empty : 0 < s.inside → s.self.bufs = [] → t.self.bufs = []
  back : ∀ value, o = .done value → t.inside = s.inside ∧ t.stopping = s.stopping

theorem listener_ends {m : Exec (World Output ω) Unit} (makes : Makes Leads Comes m) (inv : Inv s) : wp m (Ends s) s :=
  wp_mono (makes s) fun _ _ made => ⟨made.1.inv inv, made.1.inside inv, made.1.empty inv, fun value same =>
    ⟨(made.2 value same).outside inv, (made.2 value same).stopping inv⟩⟩

theorem Ends.refl (inv : Inv s) : Ends s (.done ()) s :=
  ⟨inv, Nat.le_refl _, fun _ empty => empty, fun _ _ => ⟨rfl, rfl⟩⟩

/-- What was done first has not changed the counts. -/
theorem Ends.after {m : World Output ω} {o : Outcome Unit} (ends : Ends m o t) (inside : m.inside = s.inside)
    (stopping : m.stopping = s.stopping) (bufs : m.self.bufs = s.self.bufs) : Ends s o t := by
  refine ⟨ends.inv, inside ▸ ends.inside, fun busy empty => ends.empty (inside ▸ busy) (bufs.trans empty),
    fun value same => ?_⟩
  exact ⟨(ends.back value same).1.trans inside, (ends.back value same).2.trans stopping⟩

/-- What is open is not quiet. -/
theorem started_of_opened (base : Base s) (opened : s.opened = true) : quiet s.trace = false := by
  cases silent : quiet s.trace with
  | false => rfl
  | true =>
    have closed := (base.silent silent).2.1
    rw [opened] at closed
    cases closed

theorem outstanding_none (none : s.active = []) : outstanding s = 0 := by
  rw [outstanding, none]
  rfl

/-- The next buffer is passed on. -/
theorem doWrite_ends (base : Base s) (none : s.active = []) (opened : s.opened = true) (outside : s.inside = 0)
    (free : s.stopping = 0) (bufs : s.self.bufs = front :: rest) (line : Line s.trace s.self.bufs 0)
    (size : s.self.bufsz = (s.self.bufs.map List.length).sum) : wp doWrite (Ends s) s := by
  have one : (s.issue (.write s.fd front)).active = [⟨s.lastid + 1, .write s.fd front⟩] := Base.queue_single none _
  have inv : Inv (s.issue (.write s.fd front)) := by
    refine ⟨base.issue none (started_of_opened base opened) free nofun, fun req member => ?_, fun inside => ?_,
      fun _ empty => ?_, ?_, size⟩
    · rw [one, List.mem_singleton] at member
      rw [member]
      exact .inr ⟨opened, front, rest, rfl, bufs⟩
    · rw [show (s.issue (.write s.fd front)).inside = s.inside from rfl, outside] at inside
      exact absurd inside (Nat.lt_irrefl 0)
    · rw [one] at empty
      cases empty
    · rw [outstanding, one]
      change Line (.transfer (.write s.fd front) :: s.trace) s.self.bufs 1
      rw [bufs] at line ⊢
      exact line.write s.fd
  simp only [doWrite]
  rw [wp_get_bind, bufs]
  exact ⟨inv, Nat.le_refl _, fun _ empty => empty, fun _ _ => ⟨rfl, rfl⟩⟩

section

variable (keeps : e.Keeps Leads Comes) {req : Request}

include keeps

/-- The callback of a write. In `stop` nothing is left to write after it. -/
theorem written_ends {err : Option Err} (base : Base s) (none : s.active = []) (opened : s.opened = true)
    (outside : s.inside = 0) (bufs : s.self.bufs = front :: rest) (free : s.stopping = 0 ∨ rest = [])
    (line : Line s.trace s.self.bufs 1) (size : s.self.bufsz = (s.self.bufs.map List.length).sum) :
    wp (written e err) (Ends s) s := by
  let m := (pop front rest s).enter
  have base' : Base m :=
    { base with quietly := ⟨trivial, base.quietly⟩ }
  have inv : Inv m := by
    refine ⟨base', fun req member => ?_, fun _ _ => ⟨none, opened⟩, fun _ _ => (by rintro ⟨⟩), ?_, ?_⟩
    · rw [show m.active = s.active from rfl, none] at member
      cases member
    · rw [outstanding_none (s := m) none]
      rw [bufs] at line
      exact line.pop
    · change s.self.bufsz - front.length = (rest.map List.length).sum
      rw [size, bufs, List.map_cons, List.sum_cons, Nat.add_sub_cancel_left]
  simp only [written]
  rw [wp_get_bind, bufs]
  change wp (modify _ >>= _) _ _
  rw [wp_modify_bind, wp_bind]
  refine wp_mono (listener_ends (keeps.handleWrite err) inv) ?_
  rintro (_ | why) t ends
  · obtain ⟨inside, stopping⟩ := ends.back () rfl
    have inside : t.inside = s.inside + 1 := inside
    have left : t.leave.inside = s.inside := by
      change t.inside - 1 = s.inside
      rw [inside]
      rfl
    have base := ends.inv.toBase
    have base' : Base t.leave :=
      { base with }
    rw [next_done, wp_modify_bind, wp_get_bind, wp_when]
    refine ⟨fun more => ?_, fun all => ?_⟩
    · have more : t.self.bufs ≠ [] := more
      obtain ⟨none, opened⟩ := ends.inv.held (by rw [inside]; exact Nat.succ_pos _) more
      have free : s.stopping = 0 := free.resolve_right fun last => more (ends.empty (Nat.succ_pos _) last)
      have line := ends.inv.line
      rw [outstanding_none none] at line
      obtain ⟨front', rest', bufs'⟩ := List.exists_cons_of_ne_nil more
      have next := doWrite_ends (s := t.leave) base' none opened (left.trans outside) (stopping.trans free) bufs' line
        ends.inv.size
      refine wp_mono next fun o u later => ⟨later.inv, left ▸ later.inside, fun busy => ?_, fun value same => ?_⟩
      · rw [outside] at busy
        exact absurd busy (Nat.lt_irrefl 0)
      · exact ⟨(later.back value same).1.trans left, (later.back value same).2.trans stopping⟩
    · have empty : t.self.bufs = [] := not_not.mp all
      have inv' : Inv t.leave := by
        refine ⟨base', fun req member => ends.inv.ops req member, fun _ more => absurd empty more, fun _ _ _ => empty,
          ends.inv.line, ends.inv.size⟩
      exact ⟨inv', left.ge, fun _ _ => empty, fun _ _ => ⟨left, stopping⟩⟩
  · refine ⟨ends.inv, (Nat.le_succ _).trans ends.inside, fun busy => ?_, (by rintro _ ⟨⟩)⟩
    rw [outside] at busy
    exact absurd busy (Nat.lt_irrefl 0)

/-- The callback of an open. In `stop` it fails. -/
theorem opened_ends {res : Result} (inv : Inv s) (none : s.active = []) (started : quiet s.trace = false)
    (closed : s.opened = false) (quits : 0 < s.inside → s.self.bufs = [])
    (free : s.stopping = 0 ∨ ∃ err, res = .failed err) : wp (opened e res) (Ends s) s := by
  cases res with
  | failed err => exact listener_ends (keeps.handleWrite (some err)) inv
  | data | ok => exact .refl inv
  | opened =>
    have free : s.stopping = 0 := free.resolve_right fun failed => nomatch failed
    have base : Base s.gotFd := inv.toBase.gotFd none started closed
    have line := inv.line
    rw [outstanding_none none] at line
    simp only [opened]
    rw [wp_modify_bind, wp_get_bind, wp_when]
    refine ⟨fun more => ?_, fun all => ?_⟩
    · have more : s.self.bufs ≠ [] := more
      have outside : s.inside = 0 := Nat.eq_zero_of_not_pos fun inside => more (quits inside)
      obtain ⟨front, rest, bufs⟩ := List.exists_cons_of_ne_nil more
      have next := doWrite_ends (s := s.gotFd) base none rfl outside free bufs { line with } inv.size
      exact wp_mono next fun o t ends => ends.after rfl rfl rfl
    · have empty : s.self.bufs = [] := not_not.mp all
      have inv' : Inv s.gotFd := by
        refine ⟨base, fun req member => ?_, fun _ more => absurd empty more, fun _ _ _ => empty, ?_, inv.size⟩
        · rw [show s.gotFd.active = s.active from rfl, none] at member
          cases member
        · rw [outstanding_none (s := s.gotFd) none]
          exact { line with }
      exact ⟨inv', Nat.le_refl _, fun _ empty => empty, fun _ _ => ⟨rfl, rfl⟩⟩

omit keeps in
/-- What is left of an invariant when the request is taken away. -/
theorem Inv.quits (inv : Inv s) (active : s.active = [req]) (inside : 0 < s.inside) : s.self.bufs = [] := by
  by_contra more
  have none := (inv.held inside more).1
  rw [active] at none
  cases none

omit keeps in
/-- The open is not active any more. -/
theorem Inv.drop_open (inv : Inv s) (active : s.active = [req]) (opening : req.op = .openFile) :
    Inv (s.drop req.id) ∧ (s.drop req.id).active = [] ∧ s.opened = false := by
  obtain ⟨none, base⟩ := inv.toBase.drop active
  have closed := inv.opening req (by rw [active]; exact List.mem_singleton_self _) opening
  have line := inv.line
  rw [outstanding, active, List.countP_singleton, opening] at line
  refine ⟨⟨base, fun req member => ?_, fun inside more => absurd (inv.quits active inside) more, fun opened => ?_,
    ?_, inv.size⟩,
    none, closed⟩
  · rw [none] at member
    cases member
  · rw [show (s.drop req.id).opened = s.opened from rfl, closed] at opened
    cases opened
  · rw [outstanding_none none]
    exact line

omit keeps in
/-- The write is not active any more. -/
theorem Inv.drop_write (inv : Inv s) (active : s.active = [req]) (writing : req.op ≠ .openFile) :
    Base (s.drop req.id) ∧ (s.drop req.id).active = [] ∧ s.opened = true ∧ s.inside = 0 ∧
      ∃ data rest, req.op = .write s.fd data ∧ s.self.bufs = data :: rest ∧ Line s.trace s.self.bufs 1 := by
  obtain ⟨none, base⟩ := inv.toBase.drop active
  obtain ⟨opened, data, rest, op, bufs⟩ :=
    (inv.ops req (by rw [active]; exact List.mem_singleton_self _)).resolve_left writing
  have line := inv.line
  rw [outstanding, active, List.countP_singleton, op] at line
  have outside : s.inside = 0 := by
    refine Nat.eq_zero_of_not_pos fun inside => ?_
    rw [inv.quits active inside] at bufs
    cases bufs
  exact ⟨base, none, opened, outside, data, rest, op, bufs, line⟩

theorem complete_inv (id : ℕ) (res : Result) (inv : Inv s) : Inv (complete (callback e) id res s).2 := by
  change wp (complete (callback e) id res) (fun _ t => Inv t) s
  simp only [complete]
  rw [wp_get_bind]
  split
  · exact inv
  · rename_i req found
    obtain ⟨active, rfl⟩ := inv.toBase.active_eq found
    have started := inv.toBase.busy active
    have free : s.stopping = 0 := by
      refine Nat.eq_zero_of_not_pos fun busy => ?_
      have empty := inv.stopping busy
      rw [active] at empty
      cases empty
    rw [wp_modify_bind]
    by_cases opening : req.op = .openFile
    · obtain ⟨inv', none, closed⟩ := inv.drop_open active opening
      rw [opening]
      exact wp_mono (opened_ends keeps inv' none started closed (inv.quits active) (.inl free)) fun _ _ ends => ends.inv
    · obtain ⟨base, none, opened, outside, data, rest, op, bufs, line⟩ := inv.drop_write active opening
      rw [op]
      exact wp_mono (written_ends keeps base none opened outside bufs (.inl free) line inv.size)
        fun _ _ ends => ends.inv

theorem stop_ends {gives : Bool} (inv : Inv s) (given : s.fsreq.bind s.find ≠ none → gives = true)
    (last : ∀ req ∈ s.active, req.op ≠ .openFile → s.self.bufs.length ≤ 1) (quits : 0 < s.inside → s.self.bufs = []) :
    wp (stop (callback e) gives) (Ends s) s := by
  have closing {m : World Output ω} (base : Base m) (none : m.active = []) (inside : m.inside = s.inside)
      (stopping : m.stopping = s.stopping + 1) (empty : 0 < m.inside → m.self.bufs = [])
      (line : Line m.trace m.self.bufs 0) (size : m.self.bufsz = (m.self.bufs.map List.length).sum) :
      Ends s (.done ()) m.rest := by
    have line' : Line (leaving m ++ m.trace) m.self.bufs 0 := by
      rw [leaving]
      split
      · exact { line with }
      · exact { line with }
    have inv : Inv m.rest := by
      have base := base.rest none
      rw [rest_eq] at base ⊢
      refine ⟨base, fun req member => ?_, fun inside more => absurd (empty inside) more, (by rintro ⟨⟩), ?_, size⟩
      · have member : req ∈ m.active := member
        rw [none] at member
        cases member
      · change Line (leaving m ++ m.trace) m.self.bufs (outstanding m)
        rw [outstanding_none none]
        exact line'
    rw [rest_eq] at inv ⊢
    exact ⟨inv, inside.ge, fun busy _ => empty (inside ▸ busy), fun _ _ => ⟨inside, congrArg (· - 1) stopping⟩⟩
  refine wp_stop inv.toBase given (fun none => ?_) fun req active => ?_
  · have line := inv.line
    rw [outstanding_none none] at line
    exact closing (inv.toBase.enterStop none) none rfl rfl quits line inv.size
  · have after {o : Outcome Unit} {t : World Output ω} (ends : Ends (s.drop req.id).enterStop o t) :
        (o = .done () → Ends s (.done ()) t.rest) ∧ ∀ why, o = .halt why → Ends s (.halt why) t := by
      refine ⟨fun back => ?_, fun why _ => { ends with back := (by rintro _ ⟨⟩) }⟩
      obtain ⟨inside, stopping⟩ := ends.back () back
      have none : t.active = [] := ends.inv.stopping (by rw [stopping]; exact Nat.succ_pos _)
      have line := ends.inv.line
      rw [outstanding_none none] at line
      refine closing ends.inv.toBase none inside stopping (fun busy => ?_) line ends.inv.size
      have busy : 0 < s.inside := inside ▸ busy
      exact ends.empty busy (quits busy)
    by_cases opening : req.op = .openFile
    · obtain ⟨inv', none, closed⟩ := inv.drop_open active opening
      have stopped : Inv (s.drop req.id).enterStop :=
        ⟨inv'.toBase.enterStop none, inv'.ops, inv'.held, inv'.idle, inv'.line, inv'.size⟩
      rw [opening]
      exact wp_mono (opened_ends keeps stopped none (inv.toBase.busy active) closed quits (.inr ⟨_, rfl⟩))
        fun _ _ => after
    · obtain ⟨base, none, opened, outside, data, rest, op, bufs, line⟩ := inv.drop_write active opening
      have only : rest = [] := by
        have short := last req (by rw [active]; exact List.mem_singleton_self _) opening
        rw [bufs, List.length_cons] at short
        exact List.eq_nil_of_length_eq_zero (by omega)
      rw [op]
      exact wp_mono (written_ends keeps (base.enterStop none) none opened outside bufs (.inr only) line inv.size)
        fun _ _ => after

omit keeps in
private theorem push_base (base : Base s) (data : Data) : Base (push data s) :=
  { base with quietly := ⟨trivial, base.quietly⟩ }

omit keeps in
private theorem write_ends (data : Data) (inv : Inv s) (free : s.stopping = 0)
    (more : 0 < s.inside → s.self.bufs ≠ []) : wp (write data) (Ends s) s := by
  have base := push_base inv.toBase data
  have size : (push data s).self.bufsz = ((push data s).self.bufs.map List.length).sum := by
    change s.self.bufsz + data.length = ((s.self.bufs ++ [data]).map List.length).sum
    rw [List.map_append, List.sum_append, inv.size]
    rfl
  have quits (inside : 0 < s.inside) (empty : s.self.bufs = []) : (push data s).self.bufs = [] :=
    absurd empty (more inside)
  simp only [write]
  rw [wp_modify_bind, wp_get_bind, wp_when]
  refine ⟨fun first => ?_, fun other => ?_⟩
  · obtain ⟨single, opened⟩ := first
    have empty : s.self.bufs = [] := by
      change (s.self.bufs ++ [data]).length = 1 at single
      rw [List.length_append] at single
      exact List.eq_nil_of_length_eq_zero (Nat.succ.inj single)
    have outside : s.inside = 0 := Nat.eq_zero_of_not_pos fun inside => more inside empty
    have none : s.active = [] := by
      rcases inv.single with none | ⟨req, active, -⟩
      · exact none
      · have opened : s.opened = true := opened
        rcases inv.ops req (by rw [active]; exact List.mem_singleton_self _) with opening | ⟨_, data, rest, _, bufs⟩
        · have closed := inv.opening req (by rw [active]; exact List.mem_singleton_self _) opening
          rw [opened] at closed
          cases closed
        · rw [empty] at bufs
          cases bufs
    have line := inv.line
    rw [outstanding_none none] at line
    have bufs : (push data s).self.bufs = data :: [] := by
      change s.self.bufs ++ [data] = [data]
      rw [empty]
      rfl
    have next := doWrite_ends (s := push data s) base none opened outside free bufs (line.push data) size
    exact wp_mono next fun o t ends => { ends with empty := fun inside empty => absurd empty (more inside) }
  · refine ⟨⟨base, fun req member => ?_, fun inside _ => inv.held inside (more inside), fun opened none outside => ?_,
      inv.line.push data, size⟩, Nat.le_refl _, quits, fun _ _ => ⟨rfl, rfl⟩⟩
    · rcases inv.ops req member with opening | ⟨opened, front, rest, op, bufs⟩
      · exact .inl opening
      · refine .inr ⟨opened, front, rest ++ [data], op, ?_⟩
        change s.self.bufs ++ [data] = _
        rw [bufs]
        rfl
    · refine absurd ⟨?_, opened⟩ other
      change (s.self.bufs ++ [data]).length = 1
      rw [inv.idle opened none outside]
      rfl

/-- Where a method may be called, it keeps the invariant. -/
theorem perform_ends (call : Call ω) (inv : Inv s) (allowed : Allowed call s) : wp (perform e call) (Ends s) s := by
  cases call with
  | start =>
    obtain ⟨silent, free⟩ := allowed
    obtain ⟨none, closed, -⟩ := inv.silent silent
    have one : s.start.active = [⟨s.lastid + 1, .openFile⟩] := Base.queue_single none _
    have line := inv.line
    rw [outstanding_none none] at line
    have inv' : Inv s.start := by
      refine ⟨inv.toBase.start silent free, fun req member => ?_, fun inside more => ?_, fun opened => ?_, ?_, inv.size⟩
      · rw [one, List.mem_singleton] at member
        rw [member]
        exact .inl rfl
      · have opened := (inv.held inside more).2
        rw [closed] at opened
        cases opened
      · have opened : s.opened = true := opened
        rw [closed] at opened
        cases opened
      · rw [outstanding, one]
        exact { line with }
    exact ⟨inv', Nat.le_refl _, fun _ empty => empty, fun _ _ => ⟨rfl, rfl⟩⟩
  | stop gives => exact stop_ends keeps inv allowed.1 allowed.2.1 allowed.2.2
  | write data => exact write_ends data inv allowed.1 allowed.2
  | owner =>
    exact ⟨{ inv with }, Nat.le_refl _, fun _ empty => empty, fun _ _ => ⟨rfl, rfl⟩⟩

omit keeps in
theorem perform_leads (e : Listener (World Output ω)) (keeps : e.Keeps Leads Comes) (call : Call ω) (s : World Output ω)
    (allowed : Allowed call s) :
    wp ((output ω).perform e call) (fun o t => Leads s t ∧ ∀ value, o = .done value → Comes s t) s := by
  have ends (inv : Inv s) := perform_ends keeps call inv allowed
  have leads : Leads s (perform e call s).2 :=
    ⟨fun inv => (ends inv).inv, fun inv => (ends inv).inside, fun inv => (ends inv).empty⟩
  exact ⟨leads,
    fun value back => ⟨leads, fun inv => ((ends inv).back value back).1, fun inv => ((ends inv).back value back).2⟩⟩

omit keeps in
theorem initial_inv (owner : ω) : Inv ({ self := {}, owner } : World Output ω) :=
  ⟨⟨.inl rfl, nofun, fun _ => ⟨rfl, rfl, rfl⟩, fun _ => rfl, nofun, .nil, .nil, trivial⟩, nofun,
    fun busy => absurd busy (Nat.lt_irrefl 0),
    nofun, ⟨rfl, rfl, Nat.le_refl 0⟩, rfl⟩

omit keeps in
theorem turns_inv {owner : ω} (path : ReflTransGen (Turn (output ω) Allowed) { self := {}, owner } s) : Inv s :=
  turns_keep (R := Comes) perform_leads (fun _ _ leads => leads.inv)
    (fun _ keeps id res _ inv => complete_inv keeps id res inv)
    path (initial_inv owner)

end

end Output

end UniEvent.FileEnds
