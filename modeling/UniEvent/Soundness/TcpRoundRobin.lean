import UniEvent.Model.TcpConnect

/-! # Round robin over cached addresses

An entry of the cache starts at the head of its answer. One step spares it, drops it, or moves it on to the cyclically
next node, and the last happens exactly on a failure of a connect to the same target whose address is the current one
(`State.step_entry`). The serial number of an entry makes this a count over whole runs (`State.entry_designates`).
-/

namespace UniEvent.TcpConnect

open UniEvent.Resolver (Name AddrInfoHints CacheKey)

variable {α : Type} [DecidableEq α]

namespace AddrInfo

/-- The cyclically next node. -/
def advance (ai : AddrInfo α) : AddrInfo α := if ai.next.cur ≠ [] then ai.next else ai.first

omit [DecidableEq α] in
theorem advance_nodes (ai : AddrInfo α) : ai.advance.nodes = ai.nodes := by
  unfold advance
  split <;> rfl

omit [DecidableEq α] in
/-- Positions are taken modulo the number of nodes. -/
theorem advance_cur {ai : AddrInfo α} {position : ℕ} (someNodes : ai.nodes ≠ [])
    (here : ai.cur = ai.nodes.drop (position % ai.nodes.length)) :
    ai.advance.cur = ai.nodes.drop ((position + 1) % ai.nodes.length) := by
  have positive : 0 < ai.nodes.length := List.length_pos_iff.mpr someNodes
  have below := Nat.mod_lt position positive
  have tail : ai.next.cur = ai.nodes.drop (position % ai.nodes.length + 1) := by
    change ai.cur.tail = _
    rw [here, List.tail_drop]
  unfold advance
  by_cases last : position % ai.nodes.length + 1 = ai.nodes.length
  · have wrapped : (position + 1) % ai.nodes.length = 0 := by
      rw [← Nat.mod_add_mod, last, Nat.mod_self]
    rw [if_neg (by rw [tail, last, List.drop_length]; simp), wrapped]
    rfl
  · have inside : (position + 1) % ai.nodes.length = position % ai.nodes.length + 1 := by
      rw [← Nat.mod_add_mod, Nat.mod_eq_of_lt (by omega)]
    rw [if_pos (by rw [tail, ne_eq, List.drop_eq_nil_iff]; omega), tail, inside]

omit [DecidableEq α] in
private theorem addr_eq {ai : AddrInfo α} {position : ℕ} (here : ai.cur = ai.nodes.drop position) :
    ai.addr = (ai.nodes.map Node.addr)[position]? := by
  rw [addr, here, List.head?_drop, List.getElem?_map]

end AddrInfo

/-- A host, a port other than 0, and hints. -/
structure Target where
  host : Name
  port : ℕ
  hints : AddrInfoHints
  named : host ≠ []
  numbered : port ≠ 0

namespace Target

/-- The request is to this target. -/
def Of (target : Target) (r : TcpConnectRequest α) : Prop :=
  r.host = target.host ∧ r.port = target.port ∧ r.hints = target.hints

instance (target : Target) (r : TcpConnectRequest α) : Decidable (target.Of r) := inferInstanceAs (Decidable (_ ∧ _))

/-- The key under which the resolver has the answer for such a request. -/
def key (target : Target) : CacheKey :=
  @TcpConnectRequest.key Unit { host := target.host, port := target.port, hints := target.hints }

omit [DecidableEq α] in
/-- A failed request marks the entry that the resolver has for its target, and no entry of another target. -/
theorem badKey_eq_iff (target : Target) (r : TcpConnectRequest α) : r.badKey = target.key ↔ target.Of r := by
  unfold key TcpConnectRequest.key TcpConnectRequest.badKey
  rw [if_neg target.numbered, CacheKey.mk.injEq]
  constructor
  · rintro ⟨host, digits, hints⟩
    refine ⟨host, ?_, hints⟩
    rw [← Nat.ofDigitChars_ten_toDigits (n := r.port), digits, Nat.ofDigitChars_ten_toDigits]
  · rintro ⟨host, port, hints⟩
    exact ⟨host, by rw [port], hints⟩

end Target

/-- A connect to the target, through the cache, fails on the address that the entry designates. -/
def Fails (target : Target) (s : State α) (cached : CachedAddress α) : Move α → Prop
  | .handleEvent id err =>
    (target.Of (s.connects id) ∧ (s.connects id).cached = true ∧ err ≠ [] ∧ Err.canceled ∉ err) ∧
      cached.address.addr = (s.connects id).addr
  | _ => False

instance (target : Target) (s : State α) (cached : CachedAddress α) : DecidablePred (Fails target s cached) := by
  intro move
  apply Move.casesOn (motive := fun move => Decidable (Fails target s cached move)) <;> intros <;>
    unfold Fails <;> infer_instance

/-! ### One step -/

/-- The entries under a key are those from before, or new ones at the head of their answer. -/
structure Spares (key : CacheKey) (s t : State α) : Prop where
  serial : s.serial ≤ t.serial
  entry : ∀ cached, t.cache.lookup key = some cached → s.cache.lookup key = some cached ∨
    s.serial ≤ cached.serial ∧ cached.serial < t.serial ∧ ∃ answer, cached.address = .ofAnswer answer

section Spares

omit [DecidableEq α]

variable {key : CacheKey} {s t u : State α}

theorem Spares.of_eq (cache : t.cache = s.cache) (serial : t.serial = s.serial) : Spares key s t :=
  ⟨Nat.le_of_eq serial.symm, fun cached found => Or.inl (by rw [← cache]; exact found)⟩

theorem Spares.of_empty (cache : t.cache = ∅) (serial : t.serial = s.serial) : Spares key s t := by
  refine ⟨Nat.le_of_eq serial.symm, fun cached found => ?_⟩
  rw [cache, AList.lookup_empty] at found
  cases found

theorem Spares.trans (first : Spares key s t) (second : Spares key t u) : Spares key s u := by
  refine ⟨Nat.le_trans first.serial second.serial, fun cached found => ?_⟩
  obtain old | ⟨above, below, fresh⟩ := second.entry cached found
  · obtain old | ⟨above, below, fresh⟩ := first.entry cached old
    · exact Or.inl old
    · exact Or.inr ⟨above, Nat.lt_of_lt_of_le below second.serial, fresh⟩
  · exact Or.inr ⟨Nat.le_trans first.serial above, below, fresh⟩

theorem setConnect_spares (id : ℕ) (r : TcpConnectRequest α) : Spares key s (s.setConnect id r) := .of_eq rfl rfl

theorem find_spares (other : CacheKey) : Spares key s (s.find other).2 := by
  unfold State.find
  split
  · exact .of_eq rfl rfl
  · split_ifs
    · refine ⟨le_rfl, fun cached found => Or.inl ?_⟩
      change (s.cache.erase other).lookup key = some cached at found
      by_cases same : key = other
      · rw [same, AList.lookup_erase] at found
        cases found
      · rwa [AList.lookup_erase_ne same] at found
    · exact .of_eq rfl rfl

private theorem emplace_spares (other : CacheKey) (answer : Answer α) : Spares key s (s.emplace other answer) := by
  unfold State.emplace
  split
  · exact .of_eq rfl rfl
  · refine ⟨Nat.le_succ _, fun cached found => ?_⟩
    change (s.cache.insert other _).lookup key = some cached at found
    by_cases same : key = other
    · rw [same, AList.lookup_insert] at found
      cases found
      exact Or.inr ⟨le_rfl, Nat.lt_succ_self _, answer, rfl⟩
    · rw [AList.lookup_insert_ne same] at found
      exact Or.inl found

private theorem store_spares (other : CacheKey) (answer : Answer α) : Spares key s (s.store other answer) := by
  unfold State.store
  split_ifs
  · exact .of_eq rfl rfl
  · exact Spares.trans (t := { s with cache := ∅ }) (.of_empty rfl rfl) (emplace_spares other answer)
  · exact emplace_spares other answer

private theorem finalizeConnect_spares (id : ℕ) : Spares key s (s.finalizeConnect id) := by
  have looked : Spares key s (s.find (s.connects id).key).2 := find_spares _
  unfold State.finalizeConnect
  dsimp only
  split_ifs
  · exact .of_eq rfl rfl
  · split <;> rename_i found <;> rw [found] at looked <;> exact looked.trans (setConnect_spares _ _)
  · exact setConnect_spares _ _

private theorem answered_spares (id : ℕ) (answer : Answer α) : Spares key s (s.answered id answer) := by
  unfold State.answered
  dsimp only
  split
  · split_ifs
    · exact (store_spares _ answer).trans (setConnect_spares _ _)
    · exact setConnect_spares _ _
  · exact .of_eq rfl rfl

private theorem unqueued_spares (id : ℕ) : Spares key s (s.unqueued id) := by
  have looked : Spares key s (s.find (s.connects id).key).2 := find_spares _
  unfold State.unqueued
  dsimp only
  split
  · split_ifs
    · split <;> rename_i found <;> rw [found] at looked
      · exact looked.trans (setConnect_spares _ _)
      · exact looked
    · exact .of_eq rfl rfl
  · exact .of_eq rfl rfl

private theorem fire_spares (id : ℕ) : Spares key s (s.fire id) := by
  unfold State.fire
  split
  · exact setConnect_spares _ _
  · exact .of_eq rfl rfl

end Spares

/-- The entry after one more failure, or as it is. -/
def CachedAddress.after (cached : CachedAddress α) (fails : Prop) [Decidable fails] : CachedAddress α :=
  if fails then { cached with address := cached.address.advance } else cached

namespace State

private theorem markBadAddress_lookup (s : State α) (key other : CacheKey) (sa : Option α) :
    (s.markBadAddress other sa).cache.lookup key =
      (s.cache.lookup key).map fun cached => cached.after (other = key ∧ cached.address.addr = sa) := by
  unfold markBadAddress CachedAddress.after
  by_cases same : other = key
  · subst same
    cases found : s.cache.lookup other with
    | none => simp [found]
    | some cached =>
      by_cases here : cached.address.addr = sa
      · simp [here, AddrInfo.advance]
      · simp [here, found]
  · cases s.cache.lookup other with
    | none => simp [same]
    | some cached =>
      by_cases here : cached.address.addr = sa
      · simp [same, here, AList.lookup_insert_ne (Ne.symm same)]
      · simp [same, here]

private theorem markBadAddress_serial (s : State α) (key : CacheKey) (sa : Option α) :
    (s.markBadAddress key sa).serial = s.serial := by
  unfold markBadAddress
  split
  · rfl
  · dsimp only
    split_ifs <;> rfl

/-- What a completed connect does to the entry of a target. -/
theorem handleEvent_lookup (target : Target) (s : State α) (id : ℕ) (err : ErrorCode) :
    (s.handleEvent id err).cache.lookup target.key =
      (s.cache.lookup target.key).map fun cached => cached.after (Fails target s cached (.handleEvent id err)) := by
  unfold handleEvent
  dsimp only
  split_ifs with failed
  · change (s.markBadAddress _ _).cache.lookup target.key = _
    rw [markBadAddress_lookup]
    congr 1
    funext cached
    have same : ((s.connects id).badKey = target.key ∧ cached.address.addr = (s.connects id).addr) ↔
        Fails target s cached (.handleEvent id err) := by
      rw [target.badKey_eq_iff]
      simp [Fails, failed]
    simp only [same]
  · change s.cache.lookup target.key = _
    have spared (cached : CachedAddress α) : ¬ Fails target s cached (.handleEvent id err) := by
      rintro ⟨⟨⟨host, -⟩, through, error, canceled⟩, -⟩
      exact failed ⟨error, canceled, by rw [host]; exact target.named, through⟩
    simp [CachedAddress.after, spared]

/-- Only the end of a connect changes an entry. -/
theorem step_spares (key : CacheKey) (s : State α) (move : Move α) (other : ∀ id err, move ≠ .handleEvent id err) :
    Spares key s (s.step move) := by
  cases move with
  | connectTo => exact setConnect_spares _ _
  | exec id => exact finalizeConnect_spares id
  | answered id answer => exact answered_spares id answer
  | unqueued id => exact unqueued_spares id
  | fire id => exact fire_spares id
  | handleEvent id err => exact absurd rfl (other id err)
  | find key => exact find_spares key
  | store key answer => exact store_spares key answer
  | sleep time => exact .of_eq rfl rfl
  | setExpiration time => exact .of_eq rfl rfl
  | setLimit limit =>
    simp only [step]
    split_ifs
    · exact .of_empty rfl rfl
    · exact .of_eq rfl rfl

private theorem step_serial (s : State α) (move : Move α) : s.serial ≤ (s.step move).serial := by
  by_cases event : ∃ id err, move = .handleEvent id err
  · obtain ⟨id, err, rfl⟩ := event
    unfold step handleEvent
    dsimp only
    split_ifs
    · exact Nat.le_of_eq (markBadAddress_serial s _ _).symm
    · exact le_rfl
  · exact (step_spares ⟨[], [], {}⟩ s move fun id err same => event ⟨id, err, same⟩).serial

variable {cached : CachedAddress α} {count : ℕ → ℕ} {target : Target} {s : State α}

/-- One step takes an entry of a target as it was, or after one failure, or makes a new one. -/
theorem step_entry (target : Target) (s : State α) (move : Move α)
    (found : (s.step move).cache.lookup target.key = some cached) :
    (∃ old, s.cache.lookup target.key = some old ∧ cached = old.after (Fails target s old move)) ∨
      s.serial ≤ cached.serial ∧ cached.serial < (s.step move).serial ∧
        ∃ answer, cached.address = .ofAnswer answer := by
  by_cases event : ∃ id err, move = .handleEvent id err
  · obtain ⟨id, err, rfl⟩ := event
    rw [step, handleEvent_lookup] at found
    obtain ⟨old, before, after⟩ := Option.map_eq_some_iff.mp found
    exact Or.inl ⟨old, before, after.symm⟩
  · have other (id : ℕ) (err : ErrorCode) : move ≠ .handleEvent id err := fun same => event ⟨id, err, same⟩
    have still : ¬ Fails target s cached move := by
      cases move with
      | handleEvent id err => exact absurd rfl (other id err)
      | _ => exact not_false
    obtain old | fresh := (step_spares target.key s move other).entry cached found
    · exact Or.inl ⟨cached, old, by rw [CachedAddress.after, if_neg still]⟩
    · exact Or.inr fresh

/-! ### Whole runs -/

/-- Whether the step is a failure on the designated address of the entry with the given serial number. -/
def hits (target : Target) (serial : ℕ) (s : State α) (move : Move α) : ℕ :=
  match s.cache.lookup target.key with
  | some cached => if cached.serial = serial ∧ Fails target s cached move then 1 else 0
  | none => 0

/-- The number of failures on the address that the entry designated at that moment. -/
def failures (target : Target) (serial : ℕ) : State α → List (Move α) → ℕ
  | _, [] => 0
  | s, move :: moves => hits target serial s move + failures target serial (s.step move) moves

/-- The entry is where that many failures bring it. -/
def Placed (count : ℕ) (cached : CachedAddress α) : Prop :=
  cached.address.nodes ≠ [] ∧
    cached.address.cur = cached.address.nodes.drop (count % cached.address.nodes.length)

/-- What holds in a run; `count` is by serial number. -/
structure Counted (target : Target) (count : ℕ → ℕ) (s : State α) : Prop where
  fresh : ∀ serial, s.serial ≤ serial → count serial = 0
  entry : ∀ cached, s.cache.lookup target.key = some cached →
    cached.serial < s.serial ∧ Placed (count cached.serial) cached

omit [DecidableEq α] in
theorem Placed.advance {count : ℕ} (placed : Placed count cached) :
    Placed (count + 1) { cached with address := cached.address.advance } := by
  unfold Placed
  dsimp only
  rw [cached.address.advance_nodes]
  exact ⟨placed.1, AddrInfo.advance_cur placed.1 placed.2⟩

private theorem hits_of_fresh (counted : Counted target count s) {serial : ℕ} (fresh : s.serial ≤ serial)
    (move : Move α) : hits target serial s move = 0 := by
  unfold hits
  cases found : s.cache.lookup target.key with
  | none => rfl
  | some cached =>
    have below := (counted.entry cached found).1
    exact if_neg fun both => by omega

theorem Counted.step (counted : Counted target count s) (move : Move α) :
    Counted target (fun serial => count serial + hits target serial s move) (s.step move) := by
  have grows := s.step_serial move
  constructor
  · intro serial above
    have before : s.serial ≤ serial := Nat.le_trans grows above
    rw [counted.fresh serial before, hits_of_fresh counted before]
  · intro cached found
    obtain ⟨old, before, rfl⟩ | ⟨above, below, answer, address⟩ := step_entry target s move found
    · obtain ⟨known, placed⟩ := counted.entry old before
      unfold CachedAddress.after
      split_ifs with fails
      · have hit : hits target old.serial s move = 1 := by simp [hits, before, fails]
        refine ⟨Nat.lt_of_lt_of_le known grows, ?_⟩
        dsimp only
        rw [hit]
        exact placed.advance
      · have miss : hits target old.serial s move = 0 := by simp [hits, before, fails]
        refine ⟨Nat.lt_of_lt_of_le known grows, ?_⟩
        rw [miss]
        exact placed
    · refine ⟨below, ?_⟩
      rw [counted.fresh _ above, hits_of_fresh counted above]
      unfold Placed
      rw [address]
      exact ⟨answer.2, by simp [AddrInfo.ofAnswer]⟩

theorem Counted.run (counted : Counted target count s) (moves : List (Move α)) :
    Counted target (fun serial => count serial + failures target serial s moves) (s.run moves) := by
  induction moves generalizing s count with
  | nil => exact counted
  | cons move moves ih =>
    have rest := ih (counted.step move)
    simp only [Nat.add_assoc] at rest
    exact rest

omit [DecidableEq α] in
private theorem initial_counted (target : Target) (limit expiration : ℕ) :
    Counted target (fun _ => 0) (initial limit expiration : State α) :=
  ⟨fun _ _ => rfl, fun cached found => by cases found⟩

omit [DecidableEq α] in
theorem Placed.addr {count : ℕ} (placed : Placed count cached) :
    cached.address.addr =
      (cached.address.nodes.map Node.addr)[count % (cached.address.nodes.map Node.addr).length]? := by
  rw [List.length_map]
  exact AddrInfo.addr_eq placed.2

omit [DecidableEq α] in
theorem Placed.designates {count : ℕ} (placed : Placed count cached) :
    ∃ addr ∈ cached.address.nodes.map Node.addr, cached.address.addr = some addr := by
  have inside : count % (cached.address.nodes.map Node.addr).length < (cached.address.nodes.map Node.addr).length := by
    apply Nat.mod_lt
    rw [List.length_map]
    exact List.length_pos_iff.mpr placed.1
  exact ⟨_, List.getElem_mem inside, by rw [placed.addr, List.getElem?_eq_getElem inside]⟩

/-- In every run, an entry designates the address of its answer at the number of failures so far, modulo the number of
addresses; a failure on the designated address moves it to the cyclically next one, and any other step that keeps the
entry leaves it as it is. -/
theorem entry_designates (target : Target) (limit expiration : ℕ) (moves : List (Move α)) {cached : CachedAddress α}
    (found : ((initial limit expiration).run moves).cache.lookup target.key = some cached) :
    let addrs := cached.address.nodes.map Node.addr
    let count := failures target cached.serial (initial limit expiration) moves
    cached.address.addr = addrs[count % addrs.length]? ∧ (∃ addr ∈ addrs, cached.address.addr = some addr) ∧
      ∀ move later, (((initial limit expiration).run moves).step move).cache.lookup target.key = some later →
        later.serial = cached.serial → later.address.nodes = cached.address.nodes ∧
          (Fails target ((initial limit expiration).run moves) cached move →
            later.address.addr = addrs[(count + 1) % addrs.length]?) ∧
          (¬ Fails target ((initial limit expiration).run moves) cached move → later = cached) := by
  have counted := (@initial_counted α target limit expiration).run moves
  obtain ⟨known, placed⟩ := counted.entry cached found
  rw [Nat.zero_add] at placed
  refine ⟨placed.addr, placed.designates, fun move later kept same => ?_⟩
  obtain ⟨old, before, rfl⟩ | ⟨above, -⟩ := step_entry target _ move kept
  · obtain rfl : cached = old := Option.some.inj (found.symm.trans before)
    unfold CachedAddress.after
    split_ifs with fails
    · refine ⟨cached.address.advance_nodes, fun _ => ?_, fun still => absurd fails still⟩
      have advanced := placed.advance.addr
      dsimp only at advanced
      rwa [cached.address.advance_nodes] at advanced
    · exact ⟨rfl, fun fails' => absurd fails' fails, fun _ => rfl⟩
  · exact absurd same (Nat.ne_of_gt (Nat.lt_of_lt_of_le known above))

/-- Two connects get the first of two addresses, and fail; a third gets the second address, and fails as well. -/
def threeFailures : List (Move ℕ) :=
  [.connectTo 0 none ['h'] 80 {} true, .exec 0, .answered 0 ⟨[⟨1, 9⟩, ⟨2, 9⟩], by decide⟩,
    .connectTo 1 none ['h'] 80 {} true, .exec 1, .fire 1, .handleEvent 0 [.other 111], .handleEvent 1 [.other 111],
    .connectTo 2 none ['h'] 80 {} true, .exec 2, .fire 2, .handleEvent 2 [.timedOut]]

theorem threeFailures_designates :
    ∃ cached, ((initial 10 600).run threeFailures).cache.lookup (Target.key ⟨['h'], 80, {}, by decide, by decide⟩) =
        some cached ∧
      failures ⟨['h'], 80, {}, by decide, by decide⟩ cached.serial (initial 10 600) threeFailures = 2 ∧
      cached.address.addr = some 1 := by
  refine ⟨_, rfl, rfl, ?_⟩
  exact (entry_designates ⟨['h'], 80, {}, by decide, by decide⟩ 10 600 threeFailures rfl).1

end State

end UniEvent.TcpConnect
