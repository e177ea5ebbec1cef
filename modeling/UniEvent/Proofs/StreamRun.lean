import UniEvent.Proofs.StreamCancel

/-! # Runs of a stream

Every turn of the loop is a path of moves from an idle state to an idle state, and so is a run. The
timers of requests that have left the queue are off (`Timers`), which is why the requests they cancel
are where the timers expect them.
-/

namespace UniEvent.Stream

open Program Program.Exec

variable {s t : State} {h : Members} {req : Req}

/-- Only the request at the front can have a connect timer, only a queued one a shutdown timer. -/
structure Timers (s : State) : Prop where
  connect : ∀ req, s.owner.connectTimer req = true → s.requests.head? = some req ∧ req.isConnect = true
  shutdown : ∀ req, s.owner.shutdownTimer req = true → req ∈ s.requests ∧ req.isShutdown = true

/-- `done` has removed the front, whose own timer is off. -/
private theorem Timers.retire {check : Req} {f : Fn} (timers : Timers s) (atFront : s.requests.head? = some check)
    (fits : Fits s check f) (requests : t.requests = s.requests.tail) (owner : t.owner = s.owner) : Timers t := by
  obtain ⟨rest, eq⟩ := List.head?_eq_some_iff.mp atFront
  refine ⟨fun req on => ?_, fun req on => ?_⟩
  · rw [owner] at on
    obtain ⟨front, kind⟩ := timers.connect req on
    obtain rfl : req = check := Option.some.inj (front.symm.trans atFront)
    cases req with
    | connect id timeout => exact absurd on (by rw [fits.2]; simp)
    | _ => cases kind
  · rw [owner] at on
    obtain ⟨member, kind⟩ := timers.shutdown req on
    refine ⟨?_, kind⟩
    rw [eq, List.mem_cons] at member
    rw [requests, eq, List.tail_cons]
    refine member.resolve_left ?_
    rintro rfl
    cases req with
    | shutdown id timeout => exact absurd on (by rw [fits.2]; simp)
    | _ => cases kind

theorem Move.timers (moved : Move s t) (timers : Timers s) : Timers t := by
  cases moved with
  | enqueue req owner unlinked size connectTimer shutdownTimer =>
    refine ⟨fun other on => ?_, fun other on => ?_⟩
    · obtain ⟨front, kind⟩ := timers.connect other (by rw [← connectTimer]; exact on)
      obtain ⟨rest, eq⟩ := List.head?_eq_some_iff.mp front
      refine ⟨?_, kind⟩
      change (s.requests ++ [req]).head? = some other
      rw [eq]
      rfl
    · change other ∈ s.requests ++ [req] ∧ _
      rcases shutdownTimer other on with ⟨rfl, kind⟩ | before
      · exact ⟨List.mem_append_right _ (List.mem_singleton_self _), kind⟩
      · exact (timers.shutdown other before).imp_left (List.mem_append_left _)
  | handle owner size connectTimer shutdownTimer =>
    exact ⟨fun req on => timers.connect req (connectTimer req on),
      fun req on => timers.shutdown req (shutdownTimer req on)⟩
  | arm req connect atFront free started =>
    refine ⟨fun other on => ?_, timers.shutdown⟩
    by_cases same : other = req
    · subst same
      exact ⟨atFront, connect⟩
    · exact timers.connect other (by simpa [same] using on)
  | _ =>
    exact ⟨timers.connect, timers.shutdown⟩

theorem Step.timers (step : Step Own s t) (timers : Timers s) : Timers t := by
  cases step with
  | own moved => exact moved.timers timers
  | finish req f atFront fits async => exact timers.retire atFront fits rfl rfl
  | park req f split atFront fits why => exact timers.retire atFront fits rfl rfl
  | _ =>
    exact ⟨timers.connect, timers.shutdown⟩

/-- The closures that wait for the loop are those their requests called `done` with. -/
def Parked (s : State) : Prop := ∀ req f split, .finalize req f split ∈ s.delayed → Closes req f

theorem Step.parked (step : Step Own s t) (parked : Parked s) : Parked t := by
  cases step with
  | own moved =>
    cases moved with
    | enqueue | handle | arm | pass | zero | connectEvent | connectLeft | resetCall | runNow | turn | activate
    | deactivate => exact parked
    | delayCancel req err _ _ =>
      intro other f split member
      rcases List.mem_append.mp member with kept | new
      · exact parked other f split (List.mem_filter.mp kept).1
      · simp at new
  | finish req f atFront fits async =>
    exact fun other g split member => parked other g split (List.mem_filter.mp member).1
  | park req f split atFront fits why =>
    intro other g split member
    rcases List.mem_append.mp member with kept | new
    · exact parked other g split (List.mem_filter.mp (List.mem_filter.mp kept).1).1
    · obtain ⟨rfl, rfl, _⟩ : other = req ∧ g = f ∧ _ := by simpa using new
      exact Fits.closes fits
  | flush req err atFront => exact fun other g split member => parked other g split (List.mem_filter.mp member).1
  | unpark req f split rest next atFront =>
    exact fun other g split member => parked other g split (List.mem_of_mem_tail member)
  | retry req err rest next =>
    exact fun other g split member => parked other g split (next ▸ List.mem_cons_of_mem _ member)
  | _ => exact parked

/-- Control is back in the loop. -/
structure AtRest (s : State) : Prop extends Idle s where
  timers : Timers s

theorem AtRest.back {o : Outcome Unit} (rest : AtRest s) (post : Post Own s o t) (returned : o.Returned) :
    AtRest t where
  toIdle := rest.toIdle.back (fun _ _ => Move.wf) post returned
  timers := post.path.invariant (fun _ _ => Step.timers) rest.timers

private theorem takeWhile_split {requests : List Req} (member : req ∈ requests) :
    ∃ rest, requests = requests.takeWhile (fun other => decide (other ≠ req)) ++ req :: rest := by
  induction requests with
  | nil => cases member
  | cons first later ih =>
    by_cases same : first = req
    · exact ⟨later, by simp [same]⟩
    · obtain ⟨rest, eq⟩ := ih ((List.mem_cons.mp member).resolve_left fun eq => same eq.symm)
      exact ⟨rest, by simpa [same] using eq⟩

/-- The timer of a shutdown cancels what is before it and then the request itself, which no nested
cancel has touched if the post step is run. -/
theorem shutdownTimeout_post (sharp : Sharp h) (wf : Wf s) (ctl : Ctl s) (member : req ∈ s.requests) :
    wp (shutdownTimeout h req) (Post Own s) s := by
  obtain ⟨rest, requests⟩ := takeWhile_split member
  simp only [shutdownTimeout]
  rw [wp_get_bind]
  split
  · rename_i prev last
    refine wp_local (.setTimedOut _ _) fun _ m handled => ?_
    have reached := handled.post ctl ()
    have wf' := reached.wf sharp.own wf
    obtain ⟨owner, rfl, _⟩ := handled
    have marked : ∀ other, some prev = some other → other ∈ ({ s with owner } : State).requests := by
      rintro other ⟨⟩
      change prev ∈ s.requests
      rw [requests]
      exact List.mem_append_left _ (List.mem_of_getLast? last)
    refine wp_mono (Queue.cancel_post sharp.toOk marked wf' (fun _ _ ctl => Post.refl ctl) ?_)
      fun _ _ post => reached.trans post
    have sweeps := cancelPending_sweeps_pure sharp (Queue.beginCancel_wf wf' _) (Queue.beginCancel_ctl marked)
      (Nat.succ_pos _) requests last.symm
    intro returned wf'' ctl'' gen
    refine cancel_post sharp.toSound req _ wf'' ctl'' ?_
    rcases sweeps.back returned with effect | canceled
    · obtain ⟨new, waiting, _⟩ := effect.behind requests
      exact congrArg List.head? waiting
    · exact absurd gen (Nat.ne_of_gt canceled.1)
  · rename_i last
    refine cancel_post sharp.toSound req _ wf ctl ?_
    rw [requests, List.getLast?_eq_none_iff.mp last]
    rfl

/-- The event of a request the backend holds. -/
theorem report_post (sound : Sound h) (err : Option Err) (wf : Wf s) (ctl : Ctl s)
    (atFront : s.requests.head? = some req) : wp (report h req err) (Post Own s) s := by
  have freed : Post Own s (.done () : Outcome Unit) { s with active := Function.update s.active req false } :=
    ⟨.one (.own (.deactivate s req)), fun _ => .frame ctl rfl rfl rfl fun _ => Iff.rfl⟩
  have wf' := freed.wf sound.own wf
  refine wp_modify_post (f := fun s => { s with active := Function.update s.active req false }) freed ?_
  cases req with
  | connect | write | shutdown | disconnect | runInOrder =>
    exact wp_ignoring_post (handleEvent_post sound _ err wf' freed.ctl atFront)
  | accept id =>
    refine wp_ignoring_post ?_
    simp only [finalizeHandleConnection]
    refine wp_local (.setConnectResult _) fun _ m handled => ?_
    have reached := handled.post freed.ctl ()
    have wf'' := reached.wf sound.own wf'
    refine wp_mono (Q := Post Own m) ?_ fun _ _ post => reached.trans post
    refine wp_bind_post (Queue.done_post sound.toOk wf'' reached.ctl (fun _ => rfl)
      (.inl (handled.appends.front atFront))) fun _ t post => ?_
    exact sound.user t (post.wf sound.own wf'') post.ctl

theorem perform_post (sharp : Sharp h) (task : Task) (rest : AtRest s) : wp (perform h task) (Post Own s) s := by
  have wf := rest.wf
  have ctl := rest.ctl
  cases task with
  | op op => exact runOp_post sharp.toSound op s wf ctl
  | complete req err =>
    simp only [perform]
    rw [wp_get_bind, wp_when]
    exact ⟨fun active => report_post sharp.toSound err wf ctl (wf.backend req active).1, fun _ => Post.refl ctl⟩
  | fire => exact Queue.fire_post sharp.toOk wf ctl rest.free
  | connectTimer req =>
    simp only [perform]
    rw [wp_get_bind, wp_when]
    refine ⟨fun on => wp_local (.stopConnectTimer req) fun _ m handled => ?_, fun _ => Post.refl ctl⟩
    have reached := handled.post ctl ()
    exact wp_mono (cancel_post sharp.toSound req _ (reached.wf sharp.own wf) reached.ctl
      (handled.appends.front (rest.timers.connect req on).1)) fun _ _ post => reached.trans post
  | shutdownTimer req =>
    simp only [perform]
    rw [wp_get_bind, wp_when]
    refine ⟨fun on => wp_local (.stopShutdownTimer req) fun _ m handled => ?_, fun _ => Post.refl ctl⟩
    have reached := handled.post ctl ()
    have member : req ∈ m.requests := by
      obtain ⟨owner, rfl, _⟩ := handled
      exact (rest.timers.shutdown req on).1
    exact wp_mono (shutdownTimeout_post sharp (reached.wf sharp.own wf) reached.ctl member)
      fun _ _ post => reached.trans post
  | read => exact sharp.user s wf ctl
  | eof =>
    simp only [perform]
    rw [wp_get_bind, wp_when]
    refine ⟨fun _ => wp_local (.setFlags _) fun _ m handled => ?_, fun _ => Post.refl ctl⟩
    exact sharp.toSound.user_after wf ctl handled

theorem turn_post (t : Turn) (rest : AtRest s) : wp (turn t) (Post Own s) s := by
  have started : Post Own s (.done () : Outcome Unit)
      { s.log (.own .turn) with owner := { s.owner with script := t.script, replies := t.replies } } :=
    ⟨.one (.own (.turn s t.script t.replies)), fun _ => .frame rest.ctl rfl rfl rfl (s.log_started (Event.plain_own _))⟩
  have rest' := rest.back started trivial
  exact wp_modify_post
    (f := fun s => { s.log (.own .turn) with owner := { s.owner with script := t.script, replies := t.replies } })
    started (perform_post (members_sharp t.depth) t.task rest')

/-- A run is a path, and leaves the stream at rest unless its last turn never came back. -/
theorem run_post (ts : List Turn) : ∀ s : State, AtRest s →
    wp (run ts) (fun o t => Path Own s t ∧ (o.Returned → AtRest t)) s :=
  wp_run_post rfl (fun _ _ => rfl) (fun _ _ _ rest post => rest.back post) (fun t _ rest => turn_post t rest) ts

theorem initial_atRest : AtRest initial where
  wf := (World.initial_idle _).wf
  ctl := (World.initial_idle _).ctl
  free := rfl
  timers := ⟨by simp [initial, World.initial], by simp [initial, World.initial]⟩

theorem initial_parked : Parked initial := by simp [Parked, initial, World.initial]

theorem run_path (ts : List Turn) : Path Own initial (run ts initial).2 :=
  (run_post ts initial initial_atRest).1

theorem run_wf (ts : List Turn) : Wf (run ts initial).2 :=
  (run_path ts).invariant (fun _ _ step => step.wf fun _ _ => Move.wf) initial_atRest.wf

/-- An invariant of the moves, where `Wf` and `Parked` may be used, holds after every run. -/
theorem run_invariant {I : State → Prop} (kept : ∀ s t, Step Own s t → Wf s → Parked s → I s → I t) (holds : I initial)
    (ts : List Turn) : I (run ts initial).2 := by
  have along : Wf (run ts initial).2 ∧ Parked (run ts initial).2 ∧ I (run ts initial).2 := by
    refine (run_path ts).invariant (I := fun s => Wf s ∧ Parked s ∧ I s) ?_ ⟨initial_atRest.wf, initial_parked, holds⟩
    rintro s t step ⟨wf, parked, before⟩
    exact ⟨step.wf (fun _ _ => Move.wf) wf, Step.parked step parked, kept s t step wf parked before⟩
  exact along.2.2

end UniEvent.Stream
