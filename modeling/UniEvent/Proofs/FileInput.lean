import UniEvent.Proofs.FileEnds

/-! # `FileInput` after `stop`

The callback of a read goes on after the listener, and a request that is not given back has its callback later. If
neither happens, a stopped `FileInput` is quiet.
-/

namespace UniEvent.FileEnds

open Program Program.Exec Relation

namespace Input

variable {ω : Type} {e : Listener (World Input ω)} {s t : World Input ω}

/-- The object is started when it is stopped and `stop` is not under way. It is not stopped from inside the listener of
a full chunk, nor while a request is active that the backend does not give back. Reading is not resumed from inside the
listener of a full chunk, nor from inside `stop`. -/
def Allowed : Call ω → World Input ω → Prop
  | .start, s => quiet s.trace = true ∧ s.stopping = 0
  | .stop gives, s => s.inside = 0 ∧ (s.fsreq.bind s.find ≠ none → gives = true)
  | .startReading, s => s.inside = 0 ∧ s.stopping = 0
  | .stopReading, _ | .owner _, _ => True

structure Inv (s : World Input ω) : Prop extends Base s where
  held : 0 < s.inside → s.active = [] ∧ quiet s.trace = false

/-- Wherever a call leads. -/
structure Leads (s t : World Input ω) : Prop where
  inv : Inv s → Inv t
  chunkSize : Inv s → t.self.chunkSize = s.self.chunkSize

/-- A call that comes back. -/
structure Comes (s t : World Input ω) : Prop extends Leads s t where
  inside : Inv s → t.inside = s.inside
  stopping : Inv s → t.stopping = s.stopping

instance : Std.Refl (Leads (ω := ω)) := ⟨fun _ => ⟨id, fun _ => rfl⟩⟩

instance : Std.Refl (Comes (ω := ω)) := ⟨fun s => ⟨Std.Refl.refl s, fun _ => rfl, fun _ => rfl⟩⟩

instance : IsTrans (World Input ω) Leads :=
  ⟨fun _ _ _ first second => ⟨fun inv => second.inv (first.inv inv),
    fun inv => (second.chunkSize (first.inv inv)).trans (first.chunkSize inv)⟩⟩

instance : IsTrans (World Input ω) Comes :=
  ⟨fun _ _ _ first second => ⟨IsTrans.trans _ _ _ first.toLeads second.toLeads,
    fun inv => (second.inside (first.inv inv)).trans (first.inside inv),
    fun inv => (second.stopping (first.inv inv)).trans (first.stopping inv)⟩⟩

/-- How a call ends. -/
structure Ends (s : World Input ω) (o : Outcome Unit) (t : World Input ω) : Prop where
  inv : Inv t
  chunkSize : t.self.chunkSize = s.self.chunkSize
  back : ∀ value, o = .done value → t.inside = s.inside ∧ t.stopping = s.stopping

theorem Ends.refl (inv : Inv s) : Ends s (.done ()) s := ⟨inv, rfl, fun _ _ => ⟨rfl, rfl⟩⟩

/-- What was done first has not changed the counts. -/
theorem Ends.after {m : World Input ω} {o : Outcome Unit} (ends : Ends m o t) (inside : m.inside = s.inside)
    (stopping : m.stopping = s.stopping) (chunkSize : m.self.chunkSize = s.self.chunkSize) : Ends s o t :=
  ⟨ends.inv, ends.chunkSize.trans chunkSize, fun value same =>
    ⟨(ends.back value same).1.trans inside, (ends.back value same).2.trans stopping⟩⟩

theorem listener_ends {m : Exec (World Input ω) Unit} (makes : Makes Leads Comes m) (inv : Inv s) : wp m (Ends s) s :=
  wp_mono (makes s) fun _ _ made => ⟨made.1.inv inv, made.1.chunkSize inv, fun value same =>
    ⟨(made.2 value same).inside inv, (made.2 value same).stopping inv⟩⟩

theorem Inv.of_outside (base : Base s) (outside : s.inside = 0) : Inv s := by
  refine ⟨base, fun inside => ?_⟩
  rw [outside] at inside
  exact absurd inside (Nat.lt_irrefl 0)

/-- Nothing is active while the listener of a full chunk runs. -/
theorem Inv.outside (inv : Inv s) {req : Request} (active : s.active = [req]) : s.inside = 0 := by
  rcases Nat.eq_zero_or_pos s.inside with none | some
  · exact none
  · have empty := (inv.held some).1
    rw [active] at empty
    cases empty

theorem doRead_ends (base : Base s) (none : s.active = []) (started : quiet s.trace = false) (outside : s.inside = 0)
    (free : s.stopping = 0) : wp doRead (Ends s) s :=
  ⟨.of_outside (base.issue none started free nofun) outside, rfl, fun _ _ => ⟨rfl, rfl⟩⟩

section

variable (keeps : e.Keeps Leads Comes) {res : Result}

include keeps

theorem opened_ends (inv : Inv s) (none : s.active = []) (started : quiet s.trace = false) (closed : s.opened = false)
    (outside : s.inside = 0) (free : s.stopping = 0 ∨ ∃ err, res = .failed err) : wp (opened e res) (Ends s) s := by
  cases res with
  | failed err => exact listener_ends (keeps.handleRead [] (some err)) inv
  | data | ok => exact .refl inv
  | opened =>
    have free : s.stopping = 0 := free.resolve_right fun failed => nomatch failed
    have ends := doRead_ends (inv.toBase.gotFd none started closed) none started outside free
    exact Ends.after (m := s.gotFd) ends rfl rfl rfl

/-- The listener gets a chunk; a full one is still to be followed by the next. -/
theorem handData_ends (data : Data) (inv : Inv s) (none : s.active = []) (started : quiet s.trace = false)
    (outside : s.inside = 0) :
    wp (handData e data) (fun o t => Ends s o t ∧ ∀ value, o = .done value → ¬ data.length < s.self.chunkSize →
      t.active = [] ∧ quiet t.trace = false) s := by
  have base : Base (s.log (.data data)) :=
    { inv with quietly := ⟨started, inv.quietly⟩ }
  simp only [handData]
  rw [wp_modify_bind, wp_get_bind]
  split
  · rename_i short
    refine wp_mono (listener_ends (keeps.handleRead data .none) (.of_outside base outside)) fun o t ends => ?_
    exact ⟨ends.after rfl rfl rfl, fun _ _ full => absurd short full⟩
  · have inv' : Inv (s.log (.data data)).enter :=
      ⟨{ base with }, fun _ => ⟨none, started⟩⟩
    rw [wp_modify_bind, wp_bind]
    refine wp_mono (listener_ends (keeps.handleRead data .none) inv') ?_
    rintro (_ | why) t ends
    · obtain ⟨inside, stopping⟩ := ends.back () rfl
      have held := ends.inv.held (by rw [inside]; exact Nat.succ_pos _)
      have left : t.leave.inside = s.inside := by
        change t.inside - 1 = s.inside
        rw [inside]
        rfl
      have base := ends.inv.toBase
      have inv : Inv t.leave := .of_outside { base with } (left.trans outside)
      exact ⟨⟨inv, ends.chunkSize, fun _ _ => ⟨left, stopping⟩⟩, fun _ _ _ => held⟩
    · exact ⟨⟨ends.inv, ends.chunkSize, nofun⟩, nofun⟩

private theorem read_ends (inv : Inv s) (none : s.active = []) (started : quiet s.trace = false)
    (outside : s.inside = 0) (free : s.stopping = 0 ∨ ∃ err, res = .failed err) : wp (read e res) (Ends s) s := by
  cases res with
  | failed err => exact listener_ends (keeps.handleRead [] (some err)) inv
  | opened | ok => exact .refl inv
  | data data =>
    have free : s.stopping = 0 := free.resolve_right fun failed => nomatch failed
    have first : wp (when (data.length ≠ 0) (handData e data)) (fun o t => Ends s o t ∧ ∀ value, o = .done value →
        ¬ data.length < s.self.chunkSize → t.active = [] ∧ quiet t.trace = false) s := by
      rw [wp_when]
      exact ⟨fun _ => handData_ends keeps data inv none started outside,
        fun _ => ⟨.refl inv, fun _ _ _ => ⟨none, started⟩⟩⟩
    simp only [read]
    rw [wp_bind]
    refine wp_mono first ?_
    rintro (_ | why) t ⟨ends, full⟩
    · obtain ⟨inside, stopping⟩ := ends.back () rfl
      rw [next_done, wp_get_bind, ends.chunkSize]
      split
      · refine wp_mono (listener_ends keeps.handleEof ends.inv) fun o u later => ?_
        exact later.after inside stopping ends.chunkSize
      · rename_i long
        obtain ⟨none, started⟩ := full () rfl long
        rw [wp_when]
        refine ⟨fun _ => wp_mono (doRead_ends ends.inv.toBase none started (inside.trans outside) (stopping.trans free))
          fun o u later => later.after inside stopping ends.chunkSize, fun _ => ends⟩
    · exact ends

/-- The callback of a request that is not active any more. In `stop` it fails. -/
theorem callback_ends {op : Op} (inv : Inv s) (none : s.active = []) (started : quiet s.trace = false)
    (closed : op = .openFile → s.opened = false) (outside : s.inside = 0)
    (free : s.stopping = 0 ∨ ∃ err, res = .failed err) : wp (callback e op res) (Ends s) s := by
  cases op with
  | openFile => exact opened_ends keeps inv none started (closed rfl) outside free
  | read => exact read_ends keeps inv none started outside free
  | write => exact .refl inv

theorem complete_inv (id : ℕ) (res : Result) (inv : Inv s) : Inv (complete (callback e) id res s).2 := by
  change wp (complete (callback e) id res) (fun _ t => Inv t) s
  simp only [complete]
  rw [wp_get_bind]
  split
  · exact inv
  · rename_i req found
    obtain ⟨active, rfl⟩ := inv.toBase.active_eq found
    obtain ⟨none, base⟩ := inv.toBase.drop active
    have outside := inv.outside active
    have free : s.stopping = 0 := by
      rcases Nat.eq_zero_or_pos s.stopping with free | busy
      · exact free
      · have empty := inv.stopping busy
        rw [active] at empty
        cases empty
    rw [wp_modify_bind]
    refine wp_mono (callback_ends keeps (.of_outside base outside) none (inv.toBase.busy active) ?_ outside (.inl free))
      fun _ _ ends => ends.inv
    exact inv.opening req (by rw [active]; exact List.mem_singleton_self _)

theorem stop_ends {gives : Bool} (inv : Inv s) (outside : s.inside = 0)
    (given : s.fsreq.bind s.find ≠ none → gives = true) : wp (stop (callback e) gives) (Ends s) s := by
  have closing {m : World Input ω} (base : Base m) (none : m.active = []) (inside : m.inside = s.inside)
      (stopping : m.stopping = s.stopping + 1) (chunkSize : m.self.chunkSize = s.self.chunkSize) :
      Ends s (.done ()) m.rest := by
    have inv : Inv m.rest := .of_outside (base.rest none) (by rw [rest_eq]; exact inside.trans outside)
    rw [rest_eq] at inv ⊢
    exact ⟨inv, chunkSize, fun _ _ => ⟨inside, congrArg (· - 1) stopping⟩⟩
  refine wp_stop inv.toBase given (fun none => ?_) fun req active => ?_
  · exact closing (inv.toBase.enterStop none) none rfl rfl rfl
  · obtain ⟨none, base⟩ := inv.toBase.drop active
    have base' := base.enterStop none
    refine wp_mono (callback_ends keeps (.of_outside base' outside) none (inv.toBase.busy active) ?_ outside
      (.inr ⟨_, rfl⟩)) fun o t ends => ⟨fun back => ?_, fun why halted => ?_⟩
    · exact inv.opening req (by rw [active]; exact List.mem_singleton_self _)
    · obtain ⟨inside, stopping⟩ := ends.back () back
      refine closing ends.inv.toBase (ends.inv.stopping ?_) inside stopping ends.chunkSize
      rw [stopping]
      exact Nat.succ_pos _
    · exact ⟨ends.inv, ends.chunkSize, nofun⟩

omit keeps in
private theorem startReading_ends (inv : Inv s) (outside : s.inside = 0) (free : s.stopping = 0) :
    wp startReading (Ends s) s := by
  have base : Base ({ s with self := { s.self with pause := false } } : World Input ω) :=
    { inv with }
  simp only [startReading]
  rw [wp_modify_bind, wp_get_bind]
  split
  · exact ⟨.of_outside base outside, rfl, (by rintro _ ⟨⟩)⟩
  · rename_i id named
    have named : s.fsreq = some id := named
    rw [wp_when]
    refine ⟨fun inactive => ?_, fun _ => ⟨.of_outside base outside, rfl, fun _ _ => ⟨rfl, rfl⟩⟩⟩
    have started : quiet s.trace = false := by
      cases silent : quiet s.trace with
      | false => rfl
      | true =>
        have unnamed := (inv.silent silent).2.2
        rw [named] at unnamed
        cases unnamed
    have none : s.active = [] := by
      rcases inv.toBase.request with ⟨none, -⟩ | ⟨req, -, found⟩
      · exact none
      · rw [named, Option.bind_some] at found
        have inactive : s.find id = .none := inactive
        rw [found] at inactive
        cases inactive
    exact wp_mono (doRead_ends base none started outside free) fun o t ends => ends.after rfl rfl rfl

/-- Where a method may be called, it keeps the invariant. -/
theorem perform_ends (call : Call ω) (inv : Inv s) (allowed : Allowed call s) : wp (perform e call) (Ends s) s := by
  cases call with
  | start =>
    refine ⟨⟨inv.toBase.start allowed.1 allowed.2, fun inside => ?_⟩, rfl, fun _ _ => ⟨rfl, rfl⟩⟩
    have started := (inv.held inside).2
    rw [allowed.1] at started
    cases started
  | stop gives => exact stop_ends keeps inv allowed.1 allowed.2
  | startReading => exact startReading_ends inv allowed.1 allowed.2
  | stopReading | owner =>
    exact ⟨{ inv with }, rfl, fun _ _ => ⟨rfl, rfl⟩⟩

omit keeps in
theorem perform_leads (e : Listener (World Input ω)) (keeps : e.Keeps Leads Comes) (call : Call ω) (s : World Input ω)
    (allowed : Allowed call s) :
    wp ((input ω).perform e call) (fun o t => Leads s t ∧ ∀ value, o = .done value → Comes s t) s := by
  have ends (inv : Inv s) := perform_ends keeps call inv allowed
  have leads : Leads s (perform e call s).2 := ⟨fun inv => (ends inv).inv, fun inv => (ends inv).chunkSize⟩
  exact ⟨leads,
    fun value back => ⟨leads, fun inv => ((ends inv).back value back).1, fun inv => ((ends inv).back value back).2⟩⟩

omit keeps in
theorem initial_inv (chunkSize : ℕ) (owner : ω) : Inv ({ self := { chunkSize }, owner } : World Input ω) :=
  .of_outside ⟨.inl rfl, nofun, fun _ => ⟨rfl, rfl, rfl⟩, fun _ => rfl, nofun, .nil, .nil, trivial⟩ rfl

omit keeps in
theorem turns_inv {chunkSize : ℕ} {owner : ω}
    (path : ReflTransGen (Turn (input ω) Allowed) { self := { chunkSize }, owner } s) : Inv s :=
  turns_keep (R := Comes) perform_leads (fun _ _ leads => leads.inv)
    (fun _ keeps id res _ inv => complete_inv keeps id res inv)
    path (initial_inv chunkSize owner)

end

end Input

end UniEvent.FileEnds
