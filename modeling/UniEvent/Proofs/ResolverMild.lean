import UniEvent.Proofs.ResolverDebt

/-! # Callbacks that submit requests while the resolver is reset

A callback that only submits requests cancels nothing: it leaves alone the requests that were put off before
it, and, as long as it gets only workers that `reset` has passed, those on the workers to come. The same
holds for the guard that runs after it, which may serve requests that wait. The length of the script and of
the queue bounds how deep these calls are nested.
-/

namespace UniEvent.Resolver

open Program Program.Exec

variable {s t : State} {h : Hooks} {base : List Event} {events : List Event} {k : ℕ} {m : State} {worker : Option ℕ}
  {addr : AddrInfo} {key : CacheKey} {res : Result} {α : Type}

/-- The worker at which `reset` is. -/
def visiting : List Event → Option ℕ
  | [] => none
  | .visit w :: _ => some w
  | .visited :: _ => none
  | _ :: before => visiting before

/-- While `reset` goes through the workers, a request starts on one that it has passed. -/
def BehindAt : Event → List Event → Prop
  | .start _ w, before => ∀ i ∈ visiting before, w ≤ i
  | _, _ => True

instance (e : Event) (before : List Event) : Decidable (BehindAt e before) := by
  apply Event.casesOn (motive := fun e => Decidable (BehindAt e before)) <;> intros <;>
    unfold BehindAt <;> infer_instance

/-- The same, from a moment on. -/
def BehindSince (base : List Event) (e : Event) (before : List Event) : Prop := base <:+ before → BehindAt e before

instance (base : List Event) (e : Event) (before : List Event) : Decidable (BehindSince base e before) :=
  inferInstanceAs (Decidable (base <:+ before → BehindAt e before))

def Act.isSubmit : Act → Bool
  | .op (.submit _ _) | .ret => true
  | _ => false

/-- The callbacks submit requests and do nothing else. -/
def Submits (script : List Act) : Prop := ∀ act ∈ script, act.isSubmit = true

instance (script : List Act) : Decidable (Submits script) :=
  inferInstanceAs (Decidable (∀ act ∈ script, act.isSubmit = true))

/-- The request that is canceled. -/
def Event.canceled? : Event → Option Req
  | .callback req _ (.failed .canceled) _ => some req
  | _ => none

/-- The requests that are canceled, in order. -/
def canceled (events : List Event) : List Req := events.reverse.filterMap Event.canceled?

def Event.result? (req : Req) : Event → Option Result
  | .callback r _ res _ => if r = req then some res else none
  | _ => none

/-- What the callbacks of a request receive, in order. -/
def results (req : Req) (events : List Event) : List Result := events.reverse.filterMap (Event.result? req)

theorem canceled_append (later earlier : List Event) :
    canceled (later ++ earlier) = canceled earlier ++ canceled later := by
  simp [canceled]

theorem results_append (req : Req) (later earlier : List Event) :
    results req (later ++ earlier) = results req earlier ++ results req later := by
  simp [results]

private theorem canceled_nil (none : ∀ e ∈ events, e.isCallback = false) : canceled events = [] := by
  simp only [canceled, List.filterMap_eq_nil_iff, List.mem_reverse]
  intro e member
  have quiet := none e member
  cases e with
  | callback => cases quiet
  | _ => rfl

private theorem results_nil (none : ∀ e ∈ events, e.isCallback = false) (req : Req) : results req events = [] := by
  simp only [results, List.filterMap_eq_nil_iff, List.mem_reverse]
  intro e member
  have quiet := none e member
  cases e with
  | callback => cases quiet
  | _ => rfl

/-! ### What such calls leave alone -/

/-- The request is put off, or on a worker that `reset` has not reached. -/
def Ahead (s : State) (req : Req) : Prop :=
  req ∈ s.cacheDelayed ∨ ∃ i ∈ visiting s.trace, ∃ j, i < j ∧ (s.workers j).request = some req

structure Mild (s t : State) : Prop where
  cached : s.cacheDelayed <+: t.cacheDelayed
  place : visiting t.trace = visiting s.trace
  above : ∀ i ∈ visiting s.trace, t.size = s.size ∧ ∀ j, i < j → (t.workers j).request = (s.workers j).request
  trace : ∃ events, t.trace = events ++ s.trace ∧ canceled events = [] ∧ ∀ req, Ahead s req → results req events = []

theorem Mild.refl (s : State) : Mild s s :=
  ⟨List.prefix_refl _, rfl, fun _ _ => ⟨rfl, fun _ _ => rfl⟩, [], rfl, rfl, fun _ _ => rfl⟩

theorem Mild.ahead (mild : Mild s t) {req : Req} (ahead : Ahead s req) : Ahead t req := by
  rcases ahead with cached | ⟨i, at', j, above, slot⟩
  · exact .inl (mild.cached.subset cached)
  · exact .inr ⟨i, mild.place ▸ at', j, above, ((mild.above i at').2 j above).trans slot⟩

theorem Mild.trans (first : Mild s m) (second : Mild m t) : Mild s t := by
  obtain ⟨events, trace, none, quiet⟩ := first.trace
  obtain ⟨events', trace', none', quiet'⟩ := second.trace
  refine ⟨first.cached.trans second.cached, second.place.trans first.place, fun i at' => ?_, events' ++ events,
    ?_, ?_, fun req ahead => ?_⟩
  · obtain ⟨size, slots⟩ := first.above i at'
    obtain ⟨size', slots'⟩ := second.above i (first.place ▸ at')
    exact ⟨size'.trans size, fun j above => (slots' j above).trans (slots j above)⟩
  · rw [trace', trace, List.append_assoc]
  · rw [canceled_append, none, none', List.append_nil]
  · rw [results_append, quiet req ahead, quiet' req (first.ahead ahead), List.append_nil]

/-- Neither a callback nor a step of `reset`. -/
def Event.isCalm : Event → Bool
  | .callback _ _ _ _ | .visit _ | .visited => false
  | _ => true

theorem calm_quiet (calm : ∀ e ∈ events, e.isCalm = true) : ∀ e ∈ events, e.isCallback = false := by
  intro e member
  have here := calm e member
  cases e with
  | callback => cases here
  | _ => rfl

private theorem visiting_calm (calm : ∀ e ∈ events, e.isCalm = true) (before : List Event) :
    visiting (events ++ before) = visiting before := by
  induction events with
  | nil => rfl
  | cons e events ih =>
    have rest := ih fun e member => calm e (List.mem_cons_of_mem _ member)
    have here := calm e List.mem_cons_self
    cases e with
    | callback | visit | visited => cases here
    | _ => exact rest

theorem Mild.calm {l : List Event} (trace : t.trace = l ++ s.trace) (calm : ∀ e ∈ l, e.isCalm = true)
    (cached : s.cacheDelayed <+: t.cacheDelayed)
    (above : ∀ i ∈ visiting s.trace, t.size = s.size ∧ ∀ j, i < j → (t.workers j).request = (s.workers j).request) :
    Mild s t := by
  have quiet := calm_quiet calm
  exact ⟨cached, trace ▸ visiting_calm calm s.trace, above, l, trace, canceled_nil quiet,
    fun req _ => results_nil quiet req⟩

/-- Only the trace has changed, and things that do not matter. -/
theorem Mild.frame {l : List Event} (trace : t.trace = l ++ s.trace) (calm : ∀ e ∈ l, e.isCalm = true)
    (cached : t.cacheDelayed = s.cacheDelayed) (size : t.size = s.size) (workers : t.workers = s.workers) : Mild s t :=
  .calm trace calm (cached ▸ List.prefix_refl _) fun _ _ => ⟨size, fun _ _ => by rw [workers]⟩

private theorem launch_calm (w : ℕ) (req : Req) (reply : Reply) (s : State) :
    ∃ events, (s.launch w req reply).trace = events ++ s.trace ∧ ∀ e ∈ events, e.isCalm = true := by
  cases reply with
  | pending => exact ⟨[], rfl, nofun⟩
  | sync res => exact ⟨[_], rfl, fun e member => List.mem_singleton.mp member ▸ rfl⟩

/-- A worker that `reset` has passed takes a request. -/
theorem launch_mild {w : ℕ} (behind : ∀ i ∈ visiting s.trace, w ≤ i) (req : Req) (reply : Reply) :
    Mild s (s.launch w req reply) := by
  obtain ⟨size, _, _, cached, _⟩ := s.launch_frame w req reply
  obtain ⟨events, trace, calm⟩ := launch_calm w req reply s
  refine .calm trace calm (cached ▸ List.prefix_refl _) fun i at' => ⟨size, fun j above => ?_⟩
  rw [State.launch_slots, if_neg]
  have := behind i at'
  omega

/-! ### Submissions -/

/-- The run is clean, and since a moment requests start behind `reset` only. -/
def Good (base : List Event) (s : State) : Prop := Clean s ∧ Along (BehindSince base) s.trace

theorem Good.earlier (good : Good base t) (older : s.trace <:+ t.trace) : Good base s :=
  ⟨good.1.earlier older, good.2.earlier older⟩

/-- `reset` has been called, and the callbacks submit requests only. -/
structure Ready (base : List Event) (s : State) : Prop where
  older : base <:+ s.trace
  sound : Sound s
  submits : Submits s.script
  inside : ∀ i ∈ visiting s.trace, i < s.size

theorem submit_mild (req : Req) (query : Query) (s : State) : Mild s (s.submit req query) := by
  obtain ⟨size, _, _, cached, _, workers⟩ := s.submit_frame req query
  exact .frame (l := [.submit req]) rfl (by simp [Event.isCalm]) cached size workers

theorem Good.behind {req : Req} {w : ℕ} {before : List Event} (good : Good base t)
    (trace : t.trace = .start req w :: .submit req :: before) (older : base <:+ before) :
    ∀ i ∈ visiting before, w ≤ i := by
  have along := good.2
  rw [trace] at along
  exact along.1 (older.trans (List.suffix_cons _ _))

theorem Enter.mild (enter : Enter s t) (ready : Ready base s) (good : Good base t) : Mild s t := by
  cases enter with
  | frame | expire => exact .frame (l := []) rfl nofun rfl rfl rfl
  | postpone req query addr =>
    obtain ⟨size, _, _, cached, _, workers⟩ := (s.submit req query).postpone_frame req addr
    refine (submit_mild req query s).trans (.calm (l := [_]) rfl (by simp [Event.isCalm]) ?_ fun _ _ => ?_)
    · exact cached ▸ List.prefix_append _ _
    · exact ⟨size, fun _ _ => by rw [workers]⟩
  | start req query w reply =>
    let m := (s.submit req query).log (.start req w)
    have behind := Good.behind (t := m) (good.earlier (launch_adds w req reply m).older) rfl ready.older
    have started : Mild s m := (submit_mild req query s).trans
      (.frame (l := [.start req w]) rfl (by simp [Event.isCalm]) rfl rfl rfl)
    exact started.trans (launch_mild (fun i at' => behind i (started.place ▸ at')) req reply)
  | grow req query reply =>
    -- the new worker is ahead of any that `reset` can have reached
    let m : State := { (s.submit req query).log (.start req s.size) with size := s.size + 1 }
    have behind := Good.behind (t := m) (good.earlier (launch_adds s.size req reply m).older) rfl ready.older
    have nowhere : ∀ i, i ∉ visiting s.trace := fun i at' => Nat.not_lt.mpr (behind i at') (ready.inside i at')
    have started : Mild s m := .calm (l := [.start req s.size, .submit req]) rfl (by simp [Event.isCalm])
      (List.prefix_refl _) fun i at' => absurd at' (nowhere i)
    exact started.trans (launch_mild (fun i at' => absurd (started.place ▸ at') (nowhere i)) req reply)
  | enqueue req query =>
    obtain ⟨size, _, _, cached, _, workers⟩ := (s.submit req query).enqueue_frame req
    exact (submit_mild req query s).trans (.frame (l := [_]) rfl (by simp [Event.isCalm]) cached size workers)

theorem Ready.along (ready : Ready base s) (path : Path s t) (submits : Submits t.script) (mild : Mild s t) :
    Ready base t where
  older := ready.older.trans (path_older path)
  sound := ready.sound.along path
  submits := submits
  inside i at' := by
    rw [mild.place] at at'
    rw [(mild.above i at').1]
    exact ready.inside i at'

theorem Enter.script (enter : Enter s t) : t.script = s.script := by
  cases enter with
  | frame | expire => rfl
  | postpone req query addr => exact ((s.submit req query).postpone_frame req addr).2.2.2.2.1
  | enqueue req query => exact ((s.submit req query).enqueue_frame req).2.2.2.2.1
  | start req query w reply => exact (State.launch_frame w req reply _).2.2.2.2
  | grow req query reply => exact (State.launch_frame s.size req reply _).2.2.2.2

theorem Enter.along_mild (path : Relation.ReflTransGen Enter s t) (ready : Ready base s) (good : Good base t) :
    Ready base t ∧ Mild s t := by
  induction path with
  | refl => exact ⟨ready, .refl s⟩
  | tail _ enter ih =>
    obtain ⟨before, mild⟩ := ih (good.earlier enter.older)
    have next := enter.mild before good
    exact ⟨before.along (.single (.enter enter)) (enter.script ▸ before.submits) next, mild.trans next⟩

/-- In a good run the call ends as told. -/
abbrev Surely {α : Type} (base : List Event) (s : State) (R : Outcome α → State → Prop) (o : Outcome α) (t : State) :
    Prop := Path s t ∧ (Good base t → R o t)

/-- Nothing is to be shown from a state that is not good. -/
theorem surely_of_bad {c : Exec State α} {R : Outcome α → State → Prop} (bad : ¬ Good base m) (before : Path s m)
    (path : wp c (Reached Step m) m) : wp c (Surely base s R) m :=
  wp_mono path fun _ _ steps => ⟨before.trans steps, fun good => absurd (good.earlier (path_older steps)) bad⟩

/-- Two calls one after the other; the second may use what holds after the first. -/
theorem surely_bind {α β : Type} {c : Exec State β} {f : β → Exec State α} {Q : β → State → Prop}
    {R : Outcome α → State → Prop} (first : wp c (Surely base s fun o t => ∃ v, o = .done v ∧ Q v t) m)
    (path : ∀ v t, Path s t → wp (f v) (Reached Step t) t)
    (second : ∀ v t, Path s t → Q v t → wp (f v) (Surely base s R) t) : wp (c >>= f) (Surely base s R) m := by
  rw [wp_bind]
  refine wp_mono first ?_
  rintro (v | why) t ⟨before, after⟩
  · rw [next_done]
    by_cases good : Good base t
    · obtain ⟨v', same, holds⟩ := after good
      cases same
      exact second v t before holds
    · exact surely_of_bad good before (path v t before)
  · refine ⟨before, fun good => ?_⟩
    obtain ⟨v, same, _⟩ := after good
    cases same

/-- A call, then another from where the first one ended. -/
theorem surely_seq {c : Exec State Unit} {d : Exec State α} {Q : State → Prop} {R : Outcome α → State → Prop}
    (first : wp c (Surely base s fun o t => o = .done () ∧ Q t) s) (path : Steps Step d)
    (second : ∀ t, Path s t → Q t → wp d (Surely base t R) t) : wp (do c; d) (Surely base s R) s := by
  refine surely_bind (Q := fun _ => Q) (wp_mono first fun o t holds => ⟨holds.1, fun good => ⟨(), holds.2 good⟩⟩)
    (fun _ t _ => path t) fun _ t before holds => ?_
  exact wp_mono (second t before holds) fun o u after => ⟨before.trans after.1, after.2⟩

theorem surely_mono {c : Exec State α} {P R : Outcome α → State → Prop} (holds : wp c (Surely base s P) s)
    (weaker : ∀ o t, P o t → R o t) : wp c (Surely base s R) s :=
  wp_mono holds fun o t surely => ⟨surely.1, fun good => weaker o t (surely.2 good)⟩

/-- What is left of the script and of the queue. -/
def weight (s : State) : ℕ := s.script.length + s.queue.length

/-- The call comes back, and is mild, in a good run. -/
def Calm (base : List Event) (s : State) : Outcome Unit → State → Prop :=
  Surely base s fun o t => o = .done () ∧ Ready base t ∧ Mild s t ∧ weight t ≤ weight s

theorem Calm.after {o : Outcome Unit} (path : Path s m) (mild : Mild s m) (lighter : weight m ≤ weight s)
    (calm : Calm base m o t) : Calm base s o t := by
  refine ⟨path.trans calm.1, fun good => ?_⟩
  obtain ⟨done, ready, mild', lighter'⟩ := calm.2 good
  exact ⟨done, ready, mild.trans mild', lighter'.trans lighter⟩

theorem calm_bind {β : Type} {c : Exec State β} {f : β → Exec State Unit} {P : β → State → Prop}
    (first : wp c (Surely base s fun o t => ∃ v, o = .done v ∧ P v t ∧ Ready base t ∧ Mild s t ∧ weight t ≤ weight s) m)
    (path : ∀ v t, Path s t → wp (f v) (Reached Step t) t)
    (second : ∀ v t, Path s t → P v t → Ready base t → Mild s t → weight t ≤ weight s → wp (f v) (Calm base t) t) :
    wp (c >>= f) (Calm base s) m := by
  refine surely_bind first path ?_
  rintro v t before ⟨right, ready, mild, lighter⟩
  exact wp_mono (second v t before right ready mild lighter) fun _ _ calm => Calm.after before mild lighter calm

private theorem place_length (req : Req) (s : State) : wp (place req) (fun o t => o = .done () ∧ t.script = s.script ∧
    t.queue.length ≤ s.queue.length + 1) s := by
  have queued : wp (modify (State.enqueue req)) (fun o t => o = .done () ∧ t.script = s.script ∧
      t.queue.length ≤ s.queue.length + 1) s := by
    obtain ⟨_, _, queue, _, script, _⟩ := s.enqueue_frame req
    rw [wp_modify, queue, List.length_append]
    exact ⟨rfl, script, le_rfl⟩
  simp only [place]
  rw [wp_get_bind]
  split
  · split
    · rename_i w _
      rw [wp_modify_bind]
      refine wp_workerResolve fun reply replies => ?_
      obtain ⟨_, _, queue, _, script⟩ :=
        State.launch_frame w req reply { s.log (.start req w) with dnsRollTimer := true }
      exact ⟨rfl, script, (congrArg List.length queue).le.trans (Nat.le_succ _)⟩
    · split
      · rw [wp_modify_bind]
        refine wp_workerResolve fun reply replies => ?_
        obtain ⟨_, _, queue, _, script⟩ :=
          State.launch_frame s.size req reply { s.log (.start req s.size) with size := s.size + 1 }
        exact ⟨rfl, script, (congrArg List.length queue).le.trans (Nat.le_succ _)⟩
      · exact queued
  · exact queued

private theorem resolve_length (req : Req) (query : Query) (s : State) : wp (resolve req query)
    (fun o t => o = .done () ∧ t.script = s.script ∧ t.queue.length ≤ s.queue.length + 1) s := by
  have timed (timeout : ℕ) (m : State) (script : m.script = s.script) (queue : m.queue = s.queue) :
      wp (do startTimer req timeout; place req)
        (fun o t => o = .done () ∧ t.script = s.script ∧ t.queue.length ≤ s.queue.length + 1) m := by
    rw [wp_bind]
    refine startTimer_eq req timeout fun timers => ?_
    rw [next_done]
    refine wp_mono (place_length req { m with timers }) ?_
    rintro o t ⟨done, same, length⟩
    exact ⟨done, same.trans script, queue ▸ length⟩
  simp only [resolve]
  rw [wp_modify_bind, wp_get_bind]
  split
  · rw [wp_bind]
    refine wp_mono (find_searched _) ?_
    rintro o t (⟨rfl, same | expired⟩ | ⟨addr, rfl, same, _⟩)
    · exact timed query.timeout t (same ▸ rfl) (same ▸ rfl)
    · exact timed query.timeout t (expired ▸ rfl) (expired ▸ rfl)
    · obtain ⟨_, _, queue, _, script, _⟩ := (s.submit req query).postpone_frame req addr
      subst same
      exact ⟨rfl, script, (congrArg List.length queue).le.trans (Nat.le_succ _)⟩
  · exact timed query.timeout _ rfl rfl

/-! ### Callbacks -/

/-- The call is calm, and one request less waits. -/
def Served (base : List Event) (s : State) : Outcome Unit → State → Prop :=
  Surely base s fun o t => o = .done () ∧ Ready base t ∧ Mild s t ∧ weight t < weight s

/-- The recursive calls are calm as long as little is left of the script. -/
structure Hooks.Calms (h : Hooks) (k : ℕ) : Prop where
  ok : h.Ok
  user : ∀ base s, Ready base s → s.script.length < k → wp h.user (Calm base s) s
  finish : ∀ base s req addr, Ready base s → s.script.length + 1 < k → s.queue.head? = some req →
    Cause s req (.ok addr) → wp (h.finishResolve req (.ok addr)) (Served base s) s
  budget : k ≤ h.budget + 1

private theorem act_ready (ready : Ready base s) {act : Act} {rest : List Act} (script : s.script = act :: rest) :
    Step s { s with script := rest } ∧ Ready base { s with script := rest } ∧ Mild s { s with script := rest } ∧
      weight { s with script := rest } + 1 = weight s := by
  have step : Step s { s with script := rest } := .frame s _ _ _ _ rest _
  have mild : Mild s { s with script := rest } := .frame (l := []) rfl nofun rfl rfl rfl
  refine ⟨step, ready.along (.single step) (fun a member => ?_) mild, mild, ?_⟩
  · exact ready.submits a (script ▸ List.mem_cons_of_mem _ member)
  · simp only [weight, script, List.length_cons]
    omega

/-- One act of the script pays for one request that waits. -/
theorem submit_calm (req : Req) (query : Query) (ready : Ready base s) : wp (runOp h (.submit req query))
    (fun o t => Path s t ∧ t.script = s.script ∧
      (Good base t → o = .done () ∧ Ready base t ∧ Mild s t ∧ weight t ≤ weight s + 1)) s := by
  simp only [runOp]
  rw [wp_get_bind, wp_when]
  refine ⟨fun idle => ?_, fun _ => ⟨.refl, rfl, fun _ => ⟨rfl, ready, .refl s, Nat.le_succ _⟩⟩⟩
  refine wp_mono (wp_and (resolve_entered query idle) (resolve_length req query s)) ?_
  rintro o t ⟨path, done, script, length⟩
  refine ⟨Relation.ReflTransGen.mono (r := Enter) (p := Step) (fun _ _ => .enter) _ _ path, script, fun good => ?_⟩
  obtain ⟨ready', mild⟩ := Enter.along_mild path ready good
  refine ⟨done, ready', mild, ?_⟩
  simp only [weight, script]
  omega

private theorem user_calm (calms : h.Calms k) (ready : Ready base s) (short : s.script.length < k + 1) :
    wp (user h) (Calm base s) s := by
  simp only [user, nextAct]
  rw [wp_bind, wp_get_bind, wp_modify_bind, wp_pure, next_done]
  cases script : s.script with
  | nil =>
    have step : Step s { s with script := [] } := .frame s _ _ _ _ [] _
    have mild : Mild s { s with script := [] } := .frame (l := []) rfl (by rintro _ ⟨⟩) rfl rfl rfl
    have lighter : weight { s with script := [] } ≤ weight s := by simp [weight]
    exact ⟨.single step, fun _ => ⟨rfl, ready.along (.single step) (by rintro _ ⟨⟩) mild, mild, lighter⟩⟩
  | cons act rest =>
    obtain ⟨step, ready', mild, lighter⟩ := act_ready ready script
    have submit := ready.submits act (script ▸ List.mem_cons_self)
    cases act with
    | ret => exact ⟨.single step, fun _ => ⟨rfl, ready', mild, (Nat.le_succ _).trans lighter.le⟩⟩
    | throw | stop => cases submit
    | op op =>
      cases op with
      | cancel | reset => cases submit
      | submit req query =>
        refine calm_bind (P := fun _ t => t.script = rest) (wp_mono (submit_calm req query ready') ?_)
          (fun _ t _ => calms.ok.user t) fun _ t _ same ready'' _ _ => calms.user base t ready'' ?_
        · rintro o t ⟨path, same, calm⟩
          refine ⟨.head step path, fun good => ?_⟩
          obtain ⟨done, ready'', mild', weight'⟩ := calm good
          exact ⟨(), done, same, ready'', mild.trans mild', weight'.trans lighter.le⟩
        · rw [script, List.length_cons] at short
          rw [same]
          omega

/-! ### Completion -/

private theorem release_script (req : Req) (s : State) : (s.release req).script = s.script := by
  rw [State.release]
  split
  · rw [State.cancelWorker]
    split <;> rfl
  · split <;> rfl

theorem retire_script (req : Req) (res : Result) (s : State) : (s.retire req res).script = s.script := by
  let m : State := s.disarm req
  obtain ⟨cache, trace, same⟩ := store_eq req res (m.release req)
  change ((m.release req).store req res).script = s.script
  rw [same]
  exact release_script req m

/-- A completion records its callback and perhaps an entry of the cache. -/
theorem retire_events (req : Req) (res : Result) (s : State) : ∃ key stores, (s.retire req res).trace =
    .callback req key res (s.requests req).worker :: (stores ++ s.trace) ∧ ∀ e ∈ stores, e.isCalm = true := by
  let m : State := s.disarm req
  have emplaced (key : CacheKey) (addr : AddrInfo) (u : State) (same : u.trace = s.trace) :
      ∃ stores, (u.emplace key addr).trace = stores ++ s.trace ∧ ∀ e ∈ stores, e.isCalm = true := by
    rw [State.emplace]
    split
    · exact ⟨[], same, (by rintro _ ⟨⟩)⟩
    · exact ⟨[_], congrArg _ same, fun e member => List.mem_singleton.mp member ▸ rfl⟩
  have released : (m.release req).trace = s.trace := release_trace req m
  have stored : ∃ stores, ((m.release req).store req res).trace = stores ++ s.trace ∧
      ∀ e ∈ stores, e.isCalm = true := by
    cases res with
    | failed err => exact ⟨[], released, (by rintro _ ⟨⟩)⟩
    | ok addr =>
      simp only [State.store]
      split
      · split
        · exact emplaced _ _ _ released
        · exact emplaced _ _ _ released
      · exact ⟨[], released, (by rintro _ ⟨⟩)⟩
  obtain ⟨stores, trace, calm⟩ := stored
  exact ⟨_, stores, congrArg _ trace, calm⟩

theorem visiting_callback {req : Req} {stores before : List Event} (calm : ∀ e ∈ stores, e.isCalm = true) :
    visiting (.callback req key res worker :: (stores ++ before)) = visiting before :=
  visiting_calm calm before

theorem canceled_callback {req : Req} {stores : List Event} (calm : ∀ e ∈ stores, e.isCalm = true) :
    canceled (.callback req key res worker :: stores) = if res = .failed .canceled then [req] else [] := by
  have split := canceled_append [.callback req key res worker] stores
  rw [canceled_nil (calm_quiet calm), List.nil_append, List.singleton_append] at split
  rw [split]
  cases res with
  | ok addr => rfl
  | failed err => cases err <;> rfl

theorem results_callback {req : Req} {stores : List Event} (calm : ∀ e ∈ stores, e.isCalm = true) (r : Req) :
    results r (.callback req key res worker :: stores) = if req = r then [res] else [] := by
  have split := results_append r [.callback req key res worker] stores
  rw [results_nil (calm_quiet calm) r, List.nil_append, List.singleton_append] at split
  rw [split]
  by_cases same : req = r
  · simp [results, Event.result?, same]
  · simp [results, Event.result?, same]

/-- Serving a request that waits is mild. -/
theorem serve_mild (placed : Placed s) {req : Req} (front : s.queue.head? = some req) (addr : AddrInfo) :
    Mild s (s.retire req (.ok addr)) ∧ weight (s.retire req (.ok addr)) + 1 = weight s := by
  have member := List.mem_of_head? front
  obtain ⟨running, queued, worker, _⟩ := placed.waiting req member
  have retired := placed.retired (.ok addr) running
  have slots : ∀ w, ((s.retire req (.ok addr)).workers w).request = (s.workers w).request := by
    intro w
    rw [retired.slots, worker]
    exact if_neg nofun
  have cached : (s.retire req (.ok addr)).cacheDelayed = s.cacheDelayed := by
    rw [retired.cacheDelayed, queued]
    exact if_neg fun both => nomatch both.2
  have queue : (s.retire req (.ok addr)).queue = s.queue.erase req := by
    rw [retired.queue, if_pos ⟨worker, queued⟩]
  obtain ⟨key, stores, trace, calm⟩ := retire_events req (.ok addr) s
  constructor
  · refine ⟨cached ▸ List.prefix_refl _, ?_, fun _ _ => ⟨retired.size, fun j _ => slots j⟩,
      .callback req key (.ok addr) (s.requests req).worker :: stores, trace, ?_, ?_⟩
    · rw [trace]
      exact visiting_callback calm
    · rw [canceled_callback calm, if_neg nofun]
    · intro r ahead
      rw [results_callback calm, if_neg]
      rintro rfl
      rcases ahead with postponed | ⟨_, _, j, _, slot⟩
      · simp [(placed.postponed req postponed).2.1] at queued
      · simp [(placed.slot j req slot).2] at worker
  · have script := retire_script req (.ok addr) s
    have length := List.length_erase_of_mem member
    have positive := List.length_pos_of_mem member
    simp only [weight, script, queue]
    omega

private theorem calm_scopeGuard {code guard : Exec State Unit} (first : wp code (Calm base s) s)
    (path : ∀ t, Path s t → wp guard (Reached Step t) t)
    (second : ∀ t, Path s t → Ready base t → Mild s t → weight t ≤ weight s → wp guard (Calm base t) t) :
    wp (scopeGuard code guard) (Calm base s) s := by
  refine calm_bind (P := fun failed _ => failed = false) ?_ (fun failed t steps => ?_)
    fun failed t steps same ready mild
    lighter => ?_
  · rw [wp_attempt]
    refine wp_mono first ?_
    rintro (_ | why) t ⟨steps, calm⟩
    · refine ⟨steps, fun good => ?_⟩
      obtain ⟨_, rest⟩ := calm good
      exact ⟨false, rfl, rfl, rest⟩
    · cases why <;> exact ⟨steps, fun good => nomatch (calm good).1⟩
  · exact wp_bind_reached (path t steps) fun _ => .when (.halt _)
  · subst same
    refine calm_bind (P := fun _ _ => True) (wp_mono (second t steps ready mild lighter) ?_) (fun _ u _ => ?_)
      fun _ u _ _ ready' _ _ => ?_
    · rintro o u ⟨later, calm⟩
      refine ⟨later, fun good => ?_⟩
      obtain ⟨done, rest⟩ := calm good
      exact ⟨(), done, trivial, rest⟩
    · exact Steps.when (.halt _) u
    · exact ⟨.refl, fun _ => ⟨rfl, ready', .refl u, le_rfl⟩⟩

private theorem served_calm (calms : h.Calms k) {req : Req} (ready : Ready base s) (short : s.script.length < k)
    (front : s.queue.head? = some req) (cause : Cause s req (.ok addr)) :
    wp (finishResolve h req (.ok addr)) (Served base s) s := by
  have path := wp_after (finished_reached cause) (finishResolve_reached calms.ok req (.ok addr) s)
  by_cases good : Good base s
  · have placed := ready.sound.placed good.1
    obtain ⟨running, _, worker, _⟩ := placed.waiting req (List.mem_of_head? front)
    obtain ⟨mild, lighter⟩ := serve_mild placed front addr
    have step : Step s (s.retire req (.ok addr)) := .finish s req _ running cause
    have script := retire_script req (.ok addr) s
    have ready' : Ready base (s.retire req (.ok addr)) := ready.along (.single step) (script ▸ ready.submits) mild
    simp only [finishResolve]
    rw [wp_get_bind, if_pos running, wp_modify_bind, worker]
    refine wp_mono (calm_scopeGuard (calms.user base _ ready' (script ▸ short)) (fun t _ => .refl)
      fun t _ ready'' _ _ => ⟨.refl, fun _ => ⟨rfl, ready'', .refl t, le_rfl⟩⟩) ?_
    rintro o t ⟨later, calm⟩
    refine ⟨.head step later, fun good' => ?_⟩
    obtain ⟨done, ready'', mild', lighter'⟩ := calm good'
    exact ⟨done, ready'', mild.trans mild', by omega⟩
  · exact surely_of_bad good .refl path

theorem members_calms (n : ℕ) : (members n).Calms n := by
  induction n with
  | zero =>
    exact ⟨.spent, fun _ _ _ short => absurd short (Nat.not_lt_zero _), fun _ _ _ _ _ short => absurd short
      (Nat.not_lt_zero _), Nat.zero_le _⟩
  | succ n ih =>
    exact ⟨members_ok _, fun _ _ ready short => user_calm ih ready short, fun _ _ _ _ ready short front cause =>
      served_calm ih ready (Nat.lt_of_succ_lt_succ short) front cause, le_rfl⟩

/-! ### The guard -/

private theorem uncache_cause {req : Req} (hit : s.Hit req addr) (front : s.queue.head? = some req) :
    Cause (s.setRequest req { s.requests req with useCache := false }) req (.ok addr) := by
  obtain ⟨cached, found, same⟩ := hit
  refine .cached addr ⟨cached, ?_, same⟩ front
  simpa [State.setRequest, Request.key] using found

private theorem serve_calm (calms : h.Calms k) {req : Req} (ready : Ready base s) (short : s.script.length + 1 < k)
    (hit : s.Hit req addr) (front : s.queue.head? = some req) : wp (serve h req addr) (Served base s) s := by
  let m : State := s.setRequest req { s.requests req with useCache := false }
  have step : Step s m := .uncache s req
  have mild : Mild s m := .frame (l := []) rfl (by rintro _ ⟨⟩) rfl rfl rfl
  have ready' : Ready base m := ready.along (.single step) ready.submits mild
  have served := calms.finish base m req addr ready' short front (uncache_cause hit front)
  simp only [serve]
  rw [wp_modify_bind, wp_bind, wp_attempt]
  refine wp_mono served ?_
  rintro (_ | why) t ⟨path, calm⟩
  · refine ⟨.head step path, fun good => ?_⟩
    obtain ⟨_, ready'', mild', lighter⟩ := calm good
    exact ⟨rfl, ready'', mild.trans mild', lighter⟩
  · cases why with
    | thrown =>
      exact ⟨.head step (.tail path (.left t)), fun good => by cases (calm (good.earlier (List.suffix_cons _ _))).1⟩
    | _ => exact ⟨.head step path, fun good => by cases (calm good).1⟩

private theorem assign_calm {w : ℕ} {req : Req} (ready : Ready base s) (freed : s.Freed w)
    (behind : ∀ i ∈ visiting s.trace, w ≤ i) (front : s.queue.head? = some req) :
    wp (do modify fun s => (s.dequeue req w)
           workerResolve w req) (Calm base s) s := by
  rw [wp_modify_bind]
  refine wp_workerResolve fun reply replies => ?_
  let m : State := s.dequeue req w
  have step : Step s (m.launch w req reply) := .assign s w req reply front freed
  obtain ⟨_, _, queue, _, script⟩ := m.launch_frame w req reply
  have popped : Mild s m := .frame (l := [_]) rfl (by simp [Event.isCalm]) rfl rfl rfl
  have launched := popped.trans (launch_mild (fun i at' => behind i (popped.place ▸ at')) req reply)
  have mild : Mild s { m.launch w req reply with replies } := launched.trans (.frame (l := []) rfl nofun rfl rfl rfl)
  have path : Path s { m.launch w req reply with replies } := .tail (.single step) (frame_replies _ replies)
  have lighter : (m.launch w req reply).script.length + (m.launch w req reply).queue.length ≤ weight s := by
    rw [script, queue]
    exact Nat.add_le_add_left (List.tail_sublist _).length_le _
  exact ⟨path, fun _ => ⟨rfl, ready.along path (script ▸ ready.submits) mild, mild, lighter⟩⟩

private theorem drain_calm (calms : h.Calms k) {w : ℕ} (budget : ℕ) : ∀ s : State, Ready base s → s.Freed w →
    (∀ i ∈ visiting s.trace, w ≤ i) → weight s + 1 < k → weight s < budget → wp (drain h w budget) (Calm base s) s := by
  induction budget with
  | zero => exact fun _ _ _ _ _ light => absurd light (Nat.not_lt_zero _)
  | succ budget ih =>
    intro s ready freed behind short light
    simp only [drain]
    rw [wp_get_bind]
    split
    · exact ⟨.refl, fun _ => ⟨rfl, ready, .refl s, le_rfl⟩⟩
    · rename_i req rest queue
      rw [wp_bind]
      refine wp_mono (wp_and (lookup_hit req) (lookup_frame req s)) ?_
      rintro o t ⟨⟨path, same, hit⟩, found, cache, rfl, frame⟩
      have front : t.queue.head? = some req := by rw [same, queue]; rfl
      have script : t.script = s.script := frame ▸ rfl
      have equal : weight t = weight s := by rw [weight, weight, script, same]
      have mild : Mild s t := frame ▸ .frame (l := []) rfl (by rintro _ ⟨⟩) rfl rfl rfl
      have ready' := ready.along path (script ▸ ready.submits) mild
      have freed' := freed.later path
      have behind' : ∀ i ∈ visiting t.trace, w ≤ i := fun i at' => behind i (mild.place ▸ at')
      rw [next_done]
      refine wp_mono ?_ fun o u calm => Calm.after path mild equal.le calm
      cases found with
      | some addr =>
        have less : t.script.length ≤ weight t := Nat.le_add_right _ _
        refine calm_bind (P := fun _ u => weight u < weight t)
          (wp_mono (serve_calm calms ready' (by omega) (hit addr rfl) front) ?_)
          (fun _ u later => drain_reached calms.ok w budget u (freed'.later later))
          fun _ u later lighter ready'' mild' _ => ?_
        · rintro o u ⟨later, calm⟩
          refine ⟨later, fun good => ?_⟩
          obtain ⟨done, ready'', mild', lighter⟩ := calm good
          exact ⟨(), done, lighter, ready'', mild', lighter.le⟩
        · exact ih u ready'' (freed'.later later) (fun i at' => behind' i (mild'.place ▸ at')) (by omega) (by omega)
      | none => exact assign_calm ready' freed' behind' front

private theorem afterResolve_calm (calms : h.Calms k) (worker : Option ℕ) (ready : Ready base s)
    (freed : ∀ w, worker = some w → s.Freed w) (behind : ∀ w, worker = some w → ∀ i ∈ visiting s.trace, w ≤ i)
    (short : weight s + 2 < k) : wp (afterResolve h worker) (Calm base s) s := by
  have calm : Calm base s (.done ()) s := ⟨.refl, fun _ => ⟨rfl, ready, .refl s, le_rfl⟩⟩
  simp only [afterResolve]
  rw [wp_get_bind]
  split
  · exact calm
  · rename_i w
    split
    · exact calm
    · split
      · rw [wp_when]
        refine ⟨fun _ => ?_, fun _ => calm⟩
        have mild : Mild s { s with dnsRollTimer := false } := .frame (l := []) rfl (by rintro _ ⟨⟩) rfl rfl rfl
        have step := frame_rollTimer s false
        exact ⟨.single step, fun _ => ⟨rfl, ready.along (.single step) ready.submits mild, mild, le_rfl⟩⟩
      · have budget := calms.budget
        exact drain_calm calms _ s ready (freed w rfl) (behind w rfl) (by omega) (by omega)

/-- What follows the completion of a request is calm. -/
theorem completed_calm (calms : h.Calms k) (worker : Option ℕ) (ready : Ready base s)
    (freed : ∀ w, worker = some w → s.Freed w) (behind : ∀ w, worker = some w → ∀ i ∈ visiting s.trace, w ≤ i)
    (short : weight s + 2 < k) : wp (scopeGuard h.user (afterResolve h worker)) (Calm base s) s := by
  have less : s.script.length ≤ weight s := Nat.le_add_right _ _
  refine calm_scopeGuard (calms.user base s ready (by omega)) (fun t path => ?_) fun t path ready' mild lighter => ?_
  · exact afterResolve_reached calms.ok worker fun w names => (freed w names).later path
  · exact afterResolve_calm calms worker ready' (fun w names => (freed w names).later path)
      (fun w names i at' => behind w names i (mild.place ▸ at')) (by omega)

end UniEvent.Resolver
