import Mathlib.Data.List.Perm.Basic
import UniEvent.Model.FileEnds
import UniEvent.Program.Log

/-! # One request at a time

What `FileInput` and `FileOutput` have in common. An object that has at most one request at a time, and has it named in
`fsreq`, can take it back when it is stopped, and has nothing to do then until it is started again.
-/

namespace UniEvent.FileEnds

open Program Program.Exec Relation

variable {κ ω : Type} {s t : World κ ω}

/-! ### What the trace says -/

/-- The object was stopped, and not started since. -/
def quiet : List Event → Bool
  | [] | .stopped :: _ => true
  | .start :: _ => false
  | _ :: before => quiet before

/-- The descriptors that were returned, newest first. -/
def opens : List Event → List ℕ
  | [] => []
  | .opened fd :: before => fd :: opens before
  | _ :: before => opens before

/-- The descriptors that were closed, newest first. -/
def closes : List Event → List ℕ
  | [] => []
  | .closed fd :: before => fd :: closes before
  | _ :: before => closes before

/-- A stopped object neither reads nor writes, and reports no data. -/
def QuietAt : Event → List Event → Prop
  | .transfer _, before | .data _, before => quiet before = false
  | _, _ => True

instance (event : Event) (before : List Event) : Decidable (QuietAt event before) := by
  apply Event.casesOn (motive := fun event => Decidable (QuietAt event before)) <;> intros <;>
    unfold QuietAt <;> infer_instance

/-- The descriptor that is open. -/
def current (s : World κ ω) : List ℕ := if s.opened = true then [s.fd] else []

/-- The end of `stop`, after the request was canceled. -/
def World.rest (s : World κ ω) : World κ ω := ({ s with fsreq := none } : World κ ω).close.leaveStop

/-- What `stop` notes at its end. -/
def leaving (s : World κ ω) : List Event := .stopped :: if s.opened = true then [.closed s.fd] else []

theorem rest_eq (s : World κ ω) : s.rest =
    { s with fsreq := none, opened := false, stopping := s.stopping - 1, trace := leaving s ++ s.trace } := by
  simp only [World.rest, World.close, World.leaveStop, World.log, leaving]
  split
  · rfl
  · rfl

structure Base (s : World κ ω) : Prop where
  single : s.active = [] ∨ ∃ req, s.active = [req] ∧ s.fsreq = some req.id
  opening : ∀ req ∈ s.active, req.op = .openFile → s.opened = false
  silent : quiet s.trace = true → s.active = [] ∧ s.opened = false ∧ s.fsreq = none
  stopping : 0 < s.stopping → s.active = []
  fresh : ∀ fd ∈ opens s.trace, fd ≤ s.lastfd
  nodup : (opens s.trace).Nodup
  account : (opens s.trace).Perm (closes s.trace ++ current s)
  quietly : Along QuietAt s.trace

namespace Base

variable {req : Request}

/-- The request that is active. -/
theorem active_eq (base : Base s) {id : ℕ} (found : s.find id = some req) : s.active = [req] ∧ req.id = id := by
  have named : req.id = id :=
    of_decide_eq_true (List.find?_some (p := fun req : Request => decide (req.id = id)) found)
  refine ⟨?_, named⟩
  have member := List.mem_of_find?_eq_some found
  rcases base.single with none | ⟨only, same, -⟩
  · rw [none] at member
    cases member
  · rw [same, List.mem_singleton] at member
    rw [same, member]

theorem busy (base : Base s) (active : s.active = [req]) : quiet s.trace = false := by
  cases silent : quiet s.trace with
  | false => rfl
  | true =>
    have none := (base.silent silent).1
    rw [active] at none
    cases none

/-- The request is given back, or is completed. -/
theorem drop (base : Base s) (active : s.active = [req]) : (s.drop req.id).active = [] ∧ Base (s.drop req.id) := by
  have none : (s.drop req.id).active = [] := by
    simp only [World.drop, active, List.filter_cons, List.filter_nil, ne_eq, not_true_eq_false, decide_false,
      Bool.false_eq_true, if_false]
  refine ⟨none, .inl none, ?_, fun silent => ⟨none, (base.silent silent).2⟩, fun _ => none, base.fresh, base.nodup,
    base.account, base.quietly⟩
  rw [none]
  exact nofun

theorem enterStop (base : Base s) (none : s.active = []) : Base s.enterStop :=
  { base with stopping := fun _ => none }

/-- A new request. -/
theorem queue_single (none : s.active = []) (op : Op) : (s.queue op).active = [⟨s.lastid + 1, op⟩] := by
  simp only [World.queue, none, List.nil_append]

theorem start (base : Base s) (silent : quiet s.trace = true) (free : s.stopping = 0) : Base s.start := by
  obtain ⟨none, closed, -⟩ := base.silent silent
  have one : s.start.active = [⟨s.lastid + 1, .openFile⟩] := queue_single none _
  refine ⟨.inr ⟨_, one, rfl⟩, fun _ _ _ => closed, nofun, fun busy => ?_, base.fresh, base.nodup, base.account,
    trivial, base.quietly⟩
  rw [show s.start.stopping = s.stopping from rfl, free] at busy
  exact absurd busy (Nat.lt_irrefl 0)

theorem issue (base : Base s) (none : s.active = []) (started : quiet s.trace = false) (free : s.stopping = 0) {op : Op}
    (transfer : op ≠ .openFile) : Base (s.issue op) := by
  have one : (s.issue op).active = [⟨s.lastid + 1, op⟩] := queue_single none _
  refine ⟨.inr ⟨_, one, rfl⟩, fun req member opening => ?_, fun silent => ?_, fun busy => ?_, base.fresh, base.nodup,
    base.account, started, base.quietly⟩
  · rw [one, List.mem_singleton] at member
    rw [member] at opening
    exact absurd opening transfer
  · rw [show quiet (s.issue op).trace = quiet s.trace from rfl, started] at silent
    cases silent
  · rw [show (s.issue op).stopping = s.stopping from rfl, free] at busy
    exact absurd busy (Nat.lt_irrefl 0)

theorem gotFd (base : Base s) (none : s.active = []) (started : quiet s.trace = false) (closed : s.opened = false) :
    Base s.gotFd := by
  have account : (opens s.trace).Perm (closes s.trace) := by
    have before := base.account
    rw [current, closed, if_neg Bool.false_ne_true, List.append_nil] at before
    exact before
  refine ⟨.inl none, ?_, fun silent => ?_, fun _ => none, fun fd member => ?_, ?_, ?_, trivial, base.quietly⟩
  · rw [show s.gotFd.active = s.active from rfl, none]
    exact nofun
  · rw [show quiet s.gotFd.trace = quiet s.trace from rfl, started] at silent
    cases silent
  · change fd ≤ s.lastfd + 1
    rcases List.mem_cons.mp member with rfl | before
    · exact Nat.le_refl _
    · exact (base.fresh fd before).trans (Nat.le_succ _)
  · refine List.nodup_cons.mpr ⟨fun again => ?_, base.nodup⟩
    have small := base.fresh _ again
    omega
  · change ((s.lastfd + 1) :: opens s.trace).Perm (closes s.trace ++ [s.lastfd + 1])
    exact (account.cons _).trans (List.perm_append_singleton _ _).symm

/-- The object is stopped. -/
theorem rest (base : Base s) (none : s.active = []) : Base s.rest := by
  have opening (req : Request) (member : req ∈ s.active) : False := by
    rw [none] at member
    cases member
  have account := base.account
  rw [rest_eq, leaving]
  rcases Bool.eq_false_or_eq_true s.opened with opened | opened
  · rw [current, opened, if_pos rfl] at account
    rw [opened, if_pos rfl]
    refine ⟨.inl none, fun req member => (opening req member).elim, fun _ => ⟨none, rfl, rfl⟩,
      fun _ => none, base.fresh,
      base.nodup, ?_, trivial, trivial, base.quietly⟩
    change (opens s.trace).Perm ((s.fd :: closes s.trace) ++ [])
    rw [List.append_nil]
    exact account.trans (List.perm_append_singleton _ _)
  · rw [current, opened, if_neg Bool.false_ne_true] at account
    rw [opened, if_neg Bool.false_ne_true]
    exact ⟨.inl none, fun req member => (opening req member).elim, fun _ => ⟨none, rfl, rfl⟩, fun _ => none, base.fresh,
      base.nodup, account, trivial, base.quietly⟩

/-- The request that `stop` asks the backend for. -/
theorem request (base : Base s) : (s.active = [] ∧ s.fsreq.bind s.find = none) ∨
    ∃ req, s.active = [req] ∧ s.fsreq.bind s.find = some req := by
  rcases base.single with none | ⟨req, active, named⟩
  · refine .inl ⟨none, ?_⟩
    cases s.fsreq with
    | none => rfl
    | some id => rw [Option.bind_some, World.find, none, List.find?_nil]
  · refine .inr ⟨req, active, ?_⟩
    rw [named, Option.bind_some, World.find, active]
    simp only [List.find?_cons, decide_true]

end Base

/-- `stop`, if the backend gives the request back. -/
theorem wp_stop {callback : Op → Result → Exec (World κ ω) Unit} {gives : Bool} {Q : Outcome Unit → World κ ω → Prop}
    (base : Base s) (given : s.fsreq.bind s.find ≠ none → gives = true)
    (idle : s.active = [] → Q (.done ()) s.enterStop.rest)
    (busy : ∀ req, s.active = [req] → wp (callback req.op (.failed .canceled)) (fun o t =>
      (o = .done () → Q (.done ()) t.rest) ∧ ∀ why, o = .halt why → Q (.halt why) t) (s.drop req.id).enterStop) :
    wp (stop callback gives) Q s := by
  simp only [stop]
  rw [wp_get_bind]
  rcases base.request with ⟨none, found⟩ | ⟨req, active, found⟩
  · rw [found]
    exact idle none
  · have gives := given (by rw [found]; exact nofun)
    rw [found, gives, wp_modify_bind, wp_bind]
    refine wp_mono (busy req active) ?_
    rintro (_ | why) t ⟨back, thrown⟩
    · exact back rfl
    · exact thrown why rfl

/-! ### Contracts -/

section

variable {c : Class κ ω} {allowed : c.Call → World κ ω → Prop} {e : Listener (World κ ω)}
  {M R : World κ ω → World κ ω → Prop}

theorem Listener.Keeps.mono {Mv Rt : World κ ω → World κ ω → Prop} (keeps : e.Keeps Mv Rt)
    (move : ∀ s t, Mv s t → M s t) (back : ∀ s t, Rt s t → R s t) : e.Keeps M R :=
  ⟨fun data err => (keeps.handleRead data err).mono move back, keeps.handleEof.mono move back,
    fun err => (keeps.handleWrite err).mono move back⟩

variable [Std.Refl M] [Std.Refl R] [IsTrans _ M] [IsTrans _ R]
  (calls : ∀ e : Listener (World κ ω), e.Keeps M R → ∀ call s, allowed call s →
    wp (c.perform e call) (fun o t => M s t ∧ ∀ value, o = .done value → R s t) s)

include calls

/-- A contract that the methods keep where they may be called is kept by every listener. -/
theorem Tied.keeps (tied : Tied c allowed e) : e.Keeps M R := by
  induction tied with
  | spent => exact ⟨fun _ _ => .halt _, .halt _, fun _ => .halt _⟩
  | @layer e inner _ methods ih =>
    refine methods.mono (fun s t path => ?_) fun s t path => ?_
    · rw [← reflTransGen_eq_self (r := M)]
      refine ReflTransGen.mono (r := Move c allowed inner) (p := M) (fun s t move => ?_) s t path
      obtain ⟨call, here, rfl⟩ := move
      exact (calls inner ih call s here).1
    · rw [← reflTransGen_eq_self (r := R)]
      refine ReflTransGen.mono (r := Return c allowed inner) (p := R) (fun s t back => ?_) s t path
      obtain ⟨call, here, same⟩ := back
      have made := calls inner ih call s here
      rw [wp, same] at made
      exact made.2 () rfl

/-- What the methods and the callbacks keep holds in every run. -/
theorem turns_keep {I : World κ ω → Prop} (moves : ∀ s t, M s t → I s → I t)
    (completes : ∀ e : Listener (World κ ω), e.Keeps M R → ∀ id res s, I s → I (complete (c.callback e) id res s).2)
    (path : ReflTransGen (Turn c allowed) s t) (holds : I s) : I t := by
  induction path with
  | refl => exact holds
  | tail _ turn ih =>
    cases turn with
    | call tied move =>
      obtain ⟨call, here, rfl⟩ := move
      exact moves _ _ (calls _ (tied.keeps calls) call _ here).1 ih
    | complete tied id res same =>
      rw [← same]
      exact completes _ (tied.keeps calls) id res _ ih

end

end UniEvent.FileEnds
