import UniEvent.Proofs.StreamCancel

/-! # What a cancel inside a cancel leaves behind

Callbacks that run while the queue is being canceled may call `reset()` or `clear()` themselves. When such a call comes
back, everything that waited when it was made has left the queue, and the mark of the cancel around it is gone. This
stays so until that cancel ends: whatever it finds in the queue was added meanwhile.
-/

namespace UniEvent.Stream

open Program Program.Exec

variable {s m t : State} {h : Members} {α β : Type}

/-! ### Calls under a lock -/

/-- A call goes along the moves of the stream, and `Q` holds when control comes back. -/
structure Held (Q : State → State → Prop) (c : Exec State α) (s : State) : Prop where
  post : wp c (Post Own s) s
  back : wp c (fun o t => o.Returned → Q s t) s

/-- What holds of two calls holds of their sequence. -/
def Links (Q : State → State → Prop) : Prop :=
  ∀ ⦃s m t⦄, Path Own s m → Q s m → Path Own m t → Back m t → Q m t → Q s t

variable {Q : State → State → Prop} {c : Exec State α}

/-- Sequencing two calls, the second in view of whatever else is known of the first. -/
theorem Held.bind_knowing (links : Links Q) {c : Exec State β} {f : β → Exec State α} {E : State → Prop}
    (first : Held Q c s) (known : wp c (fun o t => ∀ value, o = .done value → E t) s)
    (second : ∀ value m, Post Own s (.done value : Outcome β) m → Q s m → E m → Held Q (f value) m) :
    Held Q (c >>= f) s := by
  have facts := wp_and (wp_and first.post first.back) known
  constructor
  · rw [wp_bind]
    refine wp_mono facts ?_
    rintro (value | why) m ⟨⟨post, holds⟩, known⟩
    · exact wp_mono (second value m post (holds trivial) (known value rfl)).post fun _ _ last => post.trans last
    · exact post.outcome id
  · rw [wp_bind]
    refine wp_mono facts ?_
    rintro (value | why) m ⟨⟨post, holds⟩, known⟩
    · have rest := second value m post (holds trivial) (known value rfl)
      exact fun returned => links post.path (holds trivial) rest.post.path (rest.post.back returned)
        (rest.back returned)
    · exact holds

theorem Held.bind (links : Links Q) {c : Exec State β} {f : β → Exec State α} (first : Held Q c s)
    (second : ∀ value m, Post Own s (.done value : Outcome β) m → Q s m → Held Q (f value) m) :
    Held Q (c >>= f) s :=
  first.bind_knowing links (E := fun _ => True) (fun _ _ => trivial) fun value m post holds _ =>
    second value m post holds

theorem Held.attempt {c : Exec State Unit} (inner : Held Q c s) : Held Q (attempt c) s :=
  ⟨wp_mono (Queue.wp_attempt_quiet inner.post) fun _ _ quiet => quiet.post, wp_attempt_back inner.back⟩

/-- A call that returns at once. -/
theorem Held.done {value : α} (same : c s = (.done value, t)) (post : Post Own s (.done value) t) (holds : Q s t) :
    Held Q c s := by
  constructor
  · rw [wp, same]
    exact post
  · rw [wp, same]
    exact fun _ => holds

/-- Only what the call does from `s` matters. -/
theorem Held.congr {c c' : Exec State α} (same : c s = c' s) (other : Held Q c' s) : Held Q c s where
  post := by rw [wp, same]; exact other.post
  back := by rw [wp, same]; exact other.back

theorem Held.get {f : State → Exec State α} (rest : Held Q (f s) s) : Held Q (Exec.get >>= f) s :=
  ⟨rest.post, rest.back⟩

/-- A move in front of the rest of a call. -/
theorem Held.modify (links : Links Q) {f : State → State} (moved : Post Own s (.done () : Outcome Unit) (f s))
    (holds : Q s (f s)) (rest : Held Q c (f s)) : Held Q (Exec.modify f >>= fun _ => c) s where
  post := wp_modify_post moved rest.post
  back returned := links moved.path holds rest.post.path (rest.post.back returned) (rest.back returned)

theorem Held.assert {p : Prop} [Decidable p] (rest : p → Held Q c s) : Held Q (Exec.assert p >>= fun _ => c) s := by
  by_cases holds : p
  · simp only [Exec.assert, if_pos holds]
    exact ⟨(rest holds).post, (rest holds).back⟩
  · simp only [Exec.assert, if_neg holds]
    exact ⟨.halted .refl (by decide), fun returned => by cases returned⟩

/-! ### The parts of the queue under a lock -/

/-- `cancel` is its locked part and the `resume()` behind it. -/
theorem wp_cancel_resumed {fpre fpost : Exec State Unit} {till : Option Req} {M R : State → Prop}
    (cleared :
      wp (Queue.cancelLocked h fpre fpost s.cancelGen) (Queue.Cleared Own (s.beginCancel till)) (s.beginCancel till))
    (inner : wp (Queue.cancelLocked h fpre fpost s.cancelGen)
      (fun o p => o.Returned → p.endCancel.locked = s.locked → M p.endCancel) (s.beginCancel till))
    (resumes : ∀ m, M m → wp (Queue.resume h) (fun o t => o.Returned → R t) m) :
    wp (Queue.cancel h fpre fpost till) (fun o t => o.Returned → R t) s := by
  simp only [Queue.cancel, wp_bind, wp_modify, wp_get, next_done]
  refine wp_mono (wp_and cleared inner) ?_
  rintro (kept | why) p ⟨cleared, inner⟩
  · have locked : p.endCancel.locked = s.locked := by
      change p.locked - 1 = s.locked
      rw [(cleared.post.back trivial).locked]
      exact Nat.add_sub_cancel ..
    rw [next_done, wp_modify_bind, wp_bind]
    refine wp_mono (resumes _ (inner trivial locked)) ?_
    rintro (value | why) t back
    · rw [next_done, wp_when]
      exact ⟨fun _ _ => back trivial, fun _ _ => back trivial⟩
    · exact back
  · exact fun returned => (cleared.kept (congrArg Outcome.halt returned)).elim

/-- `cancel` under a lock is its locked part. -/
theorem wp_cancel_held (held : 0 < s.locked) {fpre fpost : Exec State Unit} {till : Option Req} {R : State → Prop}
    (cleared :
      wp (Queue.cancelLocked h fpre fpost s.cancelGen) (Queue.Cleared Own (s.beginCancel till)) (s.beginCancel till))
    (inner : wp (Queue.cancelLocked h fpre fpost s.cancelGen) (fun o p => o.Returned → R p.endCancel)
      (s.beginCancel till)) :
    wp (Queue.cancel h fpre fpost till) (fun o t => o.Returned → R t) s := by
  refine wp_cancel_resumed (M := fun m => 0 < m.locked ∧ R m) cleared ?_ fun m busy => ?_
  · exact wp_mono inner fun o p back returned locked => ⟨locked ▸ held, back returned⟩
  · simp only [Queue.resume, wp_bind, wp_get, next_done]
    split
    · exact fun _ => busy.2
    · rw [wp_when]
      exact ⟨fun idle => absurd idle (Nat.ne_of_gt busy.1), fun _ _ => busy.2⟩

/-- Where the closure of a request that `done` has removed starts. -/
def finishing (s : State) (check : Req) (f : Fn) : State :=
  (((s.log (.done check s.requests)).retire check).lock).log (.finish check f s.finalizedRequests)

/-- `done` called under a lock delays the closure, or runs it under one more lock. -/
theorem done_held (sound : Sound h) (wf : Wf s) (ctl : Ctl s) (held : 0 < s.locked) {check : Req} {f : Fn}
    (fits : s.requests.head? = some check → Fits s check f)
    (lost : s.requests.head? = some check ∨ ¬ ResetsClear s.trace)
    (parked :
      ∀ split, s.requests.head? = some check → Q s (((s.log (.done check s.requests)).retire check).park check f split))
    (called : Path Own s (finishing s check f) → Wf (finishing s check f) → Ctl (finishing s check f) →
      wp (h.call f) (fun o t => o.Returned → Q s t.unlock) (finishing s check f)) :
    Held Q (Queue.done h check f) s := by
  refine ⟨Queue.done_post sound.toOk wf ctl fits lost, ?_⟩
  simp only [Queue.done, wp_bind, wp_modify, wp_get, next_done, wp_assert]
  refine ⟨fun atFront => ?_, fun _ returned => by cases returned⟩
  simp only [next_done, Queue.complete, wp_bind, wp_get]
  split
  · exact fun _ => parked true atFront
  split
  · rename_i async
    have step : Step Own s (finishing s check f) := .finish s check f atFront (fits atFront) async
    have entered := Queue.Entered.finish wf ctl f atFront
    have wf' := step.wf sound.own wf
    simp only [scopeGuard, wp_bind, wp_modify, next_done]
    refine wp_mono (wp_and (Queue.wp_attempt_quiet (sound.call _ f wf' entered.ctl))
      (wp_attempt_back (called (.one step) wf' entered.ctl))) ?_
    rintro (kept | why) t ⟨quiet, inner⟩
    · have locked : t.unlock.locked = s.locked := (entered.leave ctl (quiet.post.back trivial)).2.1
      rw [next_done, wp_bind]
      refine release_held (locked ▸ held) ?_
      rw [next_done, wp_when]
      exact ⟨fun _ _ => inner trivial, fun _ _ => inner trivial⟩
    · exact fun returned => (quiet.kept (congrArg Outcome.halt returned)).elim
  · exact fun _ => parked false atFront

/-- What the parts of a cancel under a lock need to be known to keep the relation `Q`, as long as `P` holds. -/
structure Guides (P : State → Prop) (Q : State → State → Prop) : Prop where
  links : Links Q
  keeps : ∀ s t, P s → Q s t → P t
  refl : ∀ s, Q s s
  script : ∀ s : State, Q s { s with owner := { s.owner with script := s.owner.script.tail } }
  establishLeft : ∀ (s : State) req, Q s (s.log (.own (.connectLeft req)))
  cancelCall : ∀ (s : State) req, Q s (s.log (.cancel req))
  flush : ∀ (s : State) req, s.finalizedRequests.head? = some req → Q s (s.flush req .canceled)

/-- The members of a request keep the relation. -/
structure Guided (P : State → Prop) (Q : State → State → Prop) (h : Members) : Prop extends Sharp h where
  userHeld : ∀ s, Wf s → Ctl s → 0 < s.locked → P s → Held Q h.user s
  callHeld : ∀ s f, Wf s → Ctl s → 0 < s.locked → P s → Held Q (h.call f) s
  notifyHeld : ∀ s req err, Wf s → Ctl s → 0 < s.locked → P s → Held Q (h.notify req err) s
  cancelHeld : ∀ s req, Wf s → Ctl s → 0 < s.locked → s.cancelTill ≠ none → s.requests.head? = some req → P s →
    Held Q (h.cancel req .canceled) s

variable {P : State → Prop} (guides : Guides P Q)

include guides

theorem user_held (sound : Sound h) (wf : Wf s) (ctl : Ctl s) (held : 0 < s.locked) (holds : P s)
    (op : ∀ m op, Wf m → Ctl m → 0 < m.locked → P m → .op op ∈ s.owner.script → Held Q (runOp h op) m)
    (next : ∀ m, Wf m → Ctl m → 0 < m.locked → P m → Held Q h.user m) : Held Q (user h) s := by
  have taken : Handled s { s with owner := { s.owner with script := s.owner.script.tail } } :=
    (Local.nextAct s).2
  have post := taken.post ctl ()
  have wf' := post.wf sound.own wf
  have holds' := guides.keeps s _ holds (guides.script s)
  have read (f : Act → Exec State Unit) : (nextAct >>= f) s
      = (Exec.modify (fun s : State => { s with owner := { s.owner with script := s.owner.script.tail } })
        >>= fun _ => f (s.owner.script.headD .ret)) s := rfl
  rw [user]
  refine .congr (read _) (.modify guides.links post (guides.script s) ?_)
  cases act : s.owner.script.headD .ret with
  | ret => exact .done rfl (Post.refl post.ctl) (guides.refl _)
  | throw => exact ⟨Post.refl post.ctl, fun _ => guides.refl _⟩
  | stop => exact ⟨.halted .refl (by decide), fun returned => by cases returned⟩
  | op op' =>
    have member : Act.op op' ∈ s.owner.script := by
      cases script : s.owner.script with
      | nil => simp [script] at act
      | cons first rest => simp_all
    refine .bind guides.links (op _ op' wf' post.ctl held holds' member) fun _ m called related => ?_
    have held' : 0 < m.locked := by rw [(called.back trivial).locked]; exact held
    exact next m (called.wf sound.own wf') called.ctl held' (guides.keeps _ _ holds' related)

theorem onEstablish_held {req : Req} (user : Held Q (user h) s) : Held Q (onEstablish h req) s := by
  refine .bind guides.links user.attempt fun failed m post _ => ?_
  cases failed with
  | false => exact .done rfl (Post.refl post.ctl) (guides.refl m)
  | true =>
    have noted := note_post post.ctl (.connectLeft m req)
    exact .modify guides.links noted (guides.establishLeft m req) ⟨Post.refl noted.ctl, fun _ => guides.refl _⟩

private theorem flushFinalized_held (guided : Guided P Q h) (budget : ℕ) : ∀ s, Wf s → Ctl s → 0 < s.locked → P s →
    Held Q (Queue.flushFinalized h budget) s := by
  induction budget with
  | zero => exact fun s _ _ _ _ => ⟨.halted .refl (by decide), fun returned => by cases returned⟩
  | succ budget ih =>
    intro s wf ctl held holds
    refine .get ?_
    rcases parked : s.finalizedRequests with _ | ⟨cur, rest⟩
    · exact .done rfl (Post.refl ctl) (guides.refl s)
    have atFront : s.finalizedRequests.head? = some cur := by rw [parked]; rfl
    have flushed : Post Own s (.done () : Outcome Unit) (s.flush cur .canceled) :=
      ⟨.one (.flush s cur _ atFront), fun _ => .frame ctl rfl rfl rfl fun _ => Iff.rfl⟩
    have related := guides.flush s cur atFront
    have wf' := flushed.wf guided.own wf
    have holds' := guides.keeps _ _ holds related
    refine .modify guides.links flushed related ?_
    refine .bind guides.links (guided.notifyHeld _ cur .canceled wf' flushed.ctl held holds').attempt
      fun kept m post next => ?_
    have held' : 0 < m.locked := by rw [(post.back trivial).locked]; exact held
    refine .bind guides.links (ih m (post.wf guided.own wf') post.ctl held' (guides.keeps _ _ holds' next)) ?_
    exact fun later t last _ => .done rfl (Post.refl last.ctl) (guides.refl t)

private theorem cancelRequests_held (guided : Guided P Q h) (budget : ℕ) : ∀ s, Wf s → Ctl s → 0 < s.locked → P s →
    s.cancelTill ≠ none → Held Q (Queue.cancelRequests h budget) s := by
  induction budget with
  | zero => exact fun s _ _ _ _ _ => ⟨.halted .refl (by decide), fun returned => by cases returned⟩
  | succ budget ih =>
    intro s wf ctl held holds marked
    refine .get ?_
    rcases requests : s.requests with _ | ⟨cur, rest⟩
    · exact ⟨.halted .refl (by decide), fun returned => by cases returned⟩
    have atFront : s.requests.head? = some cur := by rw [requests]; rfl
    have logged : Post Own s (.done () : Outcome Unit) (s.log (.cancel cur)) :=
      ⟨.one (.cancel s cur atFront), fun _ => .log ctl trivial⟩
    have related := guides.cancelCall s cur
    have wf' := logged.wf guided.own wf
    have holds' := guides.keeps _ _ holds related
    refine .modify guides.links logged related ?_
    refine .bind guides.links (guided.cancelHeld _ cur wf' logged.ctl held marked atFront holds').attempt
      fun kept m post next => ?_
    have held' : 0 < m.locked := by rw [(post.back trivial).locked]; exact held
    refine .get (.assert fun _ => ?_)
    split
    · rename_i more
      refine .bind guides.links
        (ih m (post.wf guided.own wf') post.ctl held' (guides.keeps _ _ holds' next) more.1) ?_
      exact fun later t last _ => .done rfl (Post.refl last.ctl) (guides.refl t)
    · exact .done rfl (Post.refl post.ctl) (guides.refl m)

private theorem cancelWaiting_held (guided : Guided P Q h) (wf : Wf s) (ctl : Ctl s) (held : 0 < s.locked)
    (holds : P s) : Held Q (Queue.cancelWaiting h) s := by
  refine .get ?_
  split
  · rename_i waiting
    exact cancelRequests_held guides guided h.budget s wf ctl held holds waiting.2
  · exact .done rfl (Post.refl ctl) (guides.refl s)

/-- `cancel` up to its post step. -/
theorem cancelPending_held (guided : Guided P Q h) {fpre : Exec State Unit} (wf : Wf s) (ctl : Ctl s)
    (held : 0 < s.locked) (holds : P s)
    (pre : ∀ m, Wf m → Ctl m → 0 < m.locked → P m → Path Own s m → Rel s.finalizedRequests s m → Held Q fpre m) :
    Held Q (Queue.cancelPending h fpre) s := by
  have flushed := flushFinalized_held guides guided h.budget s wf ctl held holds
  have rel := flushFinalized_rel guided.toSound h.budget s wf ctl held
  have known : wp (Queue.flushFinalized h h.budget)
      (fun o t => ∀ value, o = .done value → Rel s.finalizedRequests s t) s := fun _ same =>
    rel.back (Outcome.returned_of_eq same)
  refine flushed.bind_knowing guides.links known fun caught m post related effect => ?_
  have wf' := post.wf guided.own wf
  have held' : 0 < m.locked := by rw [(post.back trivial).locked]; exact held
  have holds' := guides.keeps _ _ holds related
  refine .bind guides.links (pre m wf' post.ctl held' holds' post.path effect).attempt fun kept t post' related' => ?_
  have held'' : 0 < t.locked := by rw [(post'.back trivial).locked]; exact held'
  refine .bind guides.links (cancelWaiting_held guides guided (post'.wf guided.own wf') post'.ctl held''
    (guides.keeps _ _ holds' related')) fun canceled u post'' _ => ?_
  exact .done rfl (Post.refl post''.ctl) (guides.refl u)

end UniEvent.Stream
