import UniEvent.Model.FsPath
import UniEvent.Program.FileWalk

/-! # Making a path

`mkpath` cuts the path at the ends of its components and makes a directory of each prefix in turn. The scanner with its
two loops over one index yields the list `prefixes`, whatever the separators are; over that list it is a plain loop. It
stops at the first prefix that is not there and cannot be made, or is there and is no directory.
-/

namespace UniEvent.Fs

open Program Program.Exec FileTree

/-! ### The scanner -/

/-- A component ends at `pos`. -/
def endsPart (path : List Char) (pos : ℕ) : Bool :=
  (path.take pos).getLast?.any (fun c => !isSlash c) && (path.drop pos).head?.all isSlash

/-- The prefixes that end with a component, by increasing length. -/
def prefixes (path : List Char) : List (List Char) :=
  ((List.range (path.length + 1)).filter (endsPart path)).map path.take

/-- Those that are longer than `pos`. -/
def prefixesAfter (path : List Char) (pos : ℕ) : List (List Char) :=
  ((List.range' (pos + 1) (path.length - pos)).filter (endsPart path)).map path.take

variable {path rest : List Char} {pos : ℕ}

private theorem prefixes_eq (path : List Char) : prefixes path = prefixesAfter path 0 := by
  have first : endsPart path 0 = false := rfl
  rw [prefixes, prefixesAfter, List.range_eq_range', List.range'_succ, List.filter_cons_of_neg (by rw [first]; simp)]
  rfl

/-- No component ends before `last`. -/
theorem prefixesAfter_skip {last : ℕ} (forward : pos ≤ last) (inside : last ≤ path.length)
    (none : ∀ n, pos < n → n ≤ last → endsPart path n = false) : prefixesAfter path pos = prefixesAfter path last := by
  have split : List.range' (pos + 1) (path.length - pos) =
      List.range' (pos + 1) (last - pos) ++ List.range' (last + 1) (path.length - last) := by
    have joined := @List.range'_append (pos + 1) (last - pos) (path.length - last) 1
    have start : pos + 1 + 1 * (last - pos) = last + 1 := by omega
    have total : last - pos + (path.length - last) = path.length - pos := by omega
    rw [start, total] at joined
    exact joined.symm
  have empty : (List.range' (pos + 1) (last - pos)).filter (endsPart path) = [] := by
    refine List.filter_eq_nil_iff.mpr fun n member => ?_
    have bounds := List.mem_range'_1.mp member
    rw [none n (by omega) (by omega)]
    exact Bool.false_ne_true
  rw [prefixesAfter, prefixesAfter, split, List.filter_append, empty, List.nil_append]

/-- The next component ends at `last`. -/
theorem prefixesAfter_next {last : ℕ} (forward : pos < last) (inside : last ≤ path.length)
    (none : ∀ n, pos < n → n < last → endsPart path n = false) (ends : endsPart path last = true) :
    prefixesAfter path pos = path.take last :: prefixesAfter path last := by
  obtain ⟨before, rfl⟩ := Nat.exists_eq_add_of_le' (Nat.one_le_of_lt forward)
  have skipped : prefixesAfter path pos = prefixesAfter path before :=
    prefixesAfter_skip (by omega) (by omega) fun n after le => none n after (by omega)
  rw [skipped]
  have more : path.length - before = path.length - (before + 1) + 1 := by omega
  rw [prefixesAfter, more, List.range'_succ, List.filter_cons_of_pos ends, List.map_cons]
  rfl

theorem endsPart_eq {n : ℕ} (named : 0 < n) (inside : n ≤ path.length) :
    endsPart path n = (path[n - 1]?.any (fun c => !isSlash c) && path[n]?.all isSlash) := by
  have last : (path.take n).getLast? = path[n - 1]? := by
    rw [List.getLast?_eq_getElem?, List.length_take_of_le inside, List.getElem?_take_of_lt (by omega)]
  have next : (path.drop n).head? = path[n]? := by rw [List.head?_drop]
  rw [endsPart, last, next]

/-- The index moves over characters with `p`, and stops before one without. -/
theorem advance_spec (p : Char → Bool) (rest : List Char) : ∀ pos,
    pos ≤ advance p rest pos ∧ advance p rest pos ≤ pos + rest.length ∧
      (∀ n, pos ≤ n → n < advance p rest pos → ∃ c, rest[n - pos]? = some c ∧ p c = true) ∧
      ∀ c, rest[advance p rest pos - pos]? = some c → p c = false := by
  induction rest with
  | nil => exact fun pos => ⟨le_rfl, le_rfl, fun n le less => absurd less (Nat.not_lt.mpr le), nofun⟩
  | cons first rest ih =>
    intro pos
    rw [advance]
    split
    · rename_i holds
      obtain ⟨forward, inside, passed, before⟩ := ih (pos + 1)
      refine ⟨by omega, by rw [List.length_cons]; omega, fun n le less => ?_, fun c found => before c ?_⟩
      · by_cases same : n = pos
        · exact ⟨first, by rw [same, Nat.sub_self]; rfl, holds⟩
        · have shift : n - pos = n - (pos + 1) + 1 := by omega
          rw [shift, List.getElem?_cons_succ]
          exact passed n (by omega) less
      · have shift : advance p rest (pos + 1) - pos = advance p rest (pos + 1) - (pos + 1) + 1 := by omega
        rwa [shift, List.getElem?_cons_succ] at found
    · rename_i stops
      refine ⟨le_rfl, by omega, fun n le less => absurd less (Nat.not_lt.mpr le), fun c found => ?_⟩
      rw [Nat.sub_self] at found
      rw [← Option.some.inj found]
      exact eq_false_of_ne_true stops

/-- The same for an index into `path`. -/
theorem advance_path (p : Char → Bool) (inside : pos ≤ path.length) :
    pos ≤ advance p (path.drop pos) pos ∧ advance p (path.drop pos) pos ≤ path.length ∧
      (∀ n, pos ≤ n → n < advance p (path.drop pos) pos → ∃ c, path[n]? = some c ∧ p c = true) ∧
      ∀ c, path[advance p (path.drop pos) pos]? = some c → p c = false := by
  obtain ⟨forward, bound, passed, before⟩ := advance_spec p (path.drop pos) pos
  rw [List.length_drop] at bound
  refine ⟨forward, by omega, fun n le less => ?_, fun c found => before c ?_⟩
  · have there := passed n le less
    rwa [List.getElem?_drop, Nat.add_sub_cancel' le] at there
  · rw [List.getElem?_drop, Nat.add_sub_cancel' forward]
    exact found

/-- No component ends among separators. -/
theorem prefixesAfter_skipSlash (inside : pos ≤ path.length) :
    prefixesAfter path pos = prefixesAfter path (skipSlash (path.drop pos) pos) := by
  obtain ⟨forward, bound, passed, _⟩ := advance_path isSlash inside
  refine prefixesAfter_skip forward bound fun n after le => ?_
  change n ≤ advance isSlash (path.drop pos) pos at le
  obtain ⟨c, found, slash⟩ := passed (n - 1) (by omega) (by omega)
  rw [endsPart_eq (by omega) (le_trans le bound), found]
  simp [slash]

private theorem findPart_moves (less : pos < path.length) (begins : ∀ c, path[pos]? = some c → isSlash c = false) :
    pos < findPart (path.drop pos) pos := by
  obtain ⟨forward, _, _, before⟩ := advance_path (fun c => !isSlash c) (Nat.le_of_lt less)
  refine Nat.lt_of_le_of_ne forward fun same => ?_
  have first : path[pos]? = some path[pos] := List.getElem?_eq_getElem less
  change pos = advance _ _ _ at same
  rw [← same] at before
  have stopped := before path[pos] first
  rw [begins _ first] at stopped
  cases stopped

/-- The next component ends where `find_part` stops. -/
theorem prefixesAfter_findPart (less : pos < path.length) (begins : ∀ c, path[pos]? = some c → isSlash c = false) :
    prefixesAfter path pos =
      path.take (findPart (path.drop pos) pos) :: prefixesAfter path (findPart (path.drop pos) pos) := by
  obtain ⟨_, bound, passed, before⟩ := advance_path (fun c => !isSlash c) (Nat.le_of_lt less)
  change findPart (path.drop pos) pos ≤ path.length at bound
  have moves := findPart_moves less begins
  refine prefixesAfter_next moves bound (fun n after less => ?_) ?_
  · obtain ⟨c, found, part⟩ := passed n (Nat.le_of_lt after) less
    have notSlash : isSlash c = false := by simpa using part
    rw [endsPart_eq (by omega) (by omega), found, Option.all_some, notSlash, Bool.and_false]
  · obtain ⟨c, found, part⟩ := passed (findPart (path.drop pos) pos - 1) (by omega) (Nat.sub_one_lt (by omega))
    have next : path[findPart (path.drop pos) pos]?.all isSlash = true := by
      cases follows : path[findPart (path.drop pos) pos]? with
      | none => rfl
      | some c =>
        have stopped : (!isSlash c) = false := before c follows
        simpa using stopped
    rw [endsPart_eq (by omega) bound, found, next]
    simpa using part

/-! ### The loop over the prefixes -/

/-- What `mkpath` does with its prefixes. -/
def mkall : List (List Char) → Exec Disk (Except Errc Unit)
  | [] => pure (.ok ())
  | curpath :: paths => do
    let ret ← mkdir curpath
    goOn curpath (mkall paths) ret

/-- The scanner yields the prefixes one by one. -/
theorem mkparts_eq (path : List Char) (rounds : ℕ) : ∀ pos, pos ≤ path.length → path.length - pos < rounds →
    (∀ c, path[pos]? = some c → isSlash c = false) → mkparts path rounds pos = mkall (prefixesAfter path pos) := by
  induction rounds with
  | zero => exact fun pos _ enough => absurd enough (Nat.not_lt_zero _)
  | succ rounds ih =>
    intro pos inside enough begins
    rw [mkparts]
    split
    · rename_i less
      have moves := findPart_moves less begins
      have bound : findPart (path.drop pos) pos ≤ path.length := (advance_path _ inside).2.1
      obtain ⟨forward, inside, _, stops⟩ := advance_path isSlash bound
      have further := ih (skipSlash (path.drop (findPart (path.drop pos) pos)) (findPart (path.drop pos) pos)) inside
        (Nat.lt_of_le_of_lt (Nat.sub_le_sub_left forward _) (by omega)) stops
      rw [prefixesAfter_findPart less begins, mkall, prefixesAfter_skipSlash bound, ← further]
    · rename_i passed
      have last : pos = path.length := by omega
      rw [prefixesAfter, last, Nat.sub_self]
      rfl

/-! ### What the prefixes lead to -/

/-- The entry that a text names. -/
def Names (t : FileTree (List Char)) (path : List Char) (loc : Loc (List Char)) : Prop :=
  ∃ parsed, parse path = .ok parsed ∧ t.locate parsed = .ok loc

/-- There is something at the path, and it is no directory. -/
def Blocked (t : FileTree (List Char)) (path : List Char) : Prop :=
  (∃ loc, Names t path loc ∧ t.lookup loc ≠ none) ∧ leadsToDir t path = false

/-- All `paths` are directories now, and new are only directories that these name. -/
structure Made (paths : List (List Char)) (t t' : FileTree (List Char)) : Prop where
  contains : Contains t' t
  dirs : ∀ path ∈ paths, leadsToDir t' path = true
  new : ∀ loc, t.lookup loc = none → t'.lookup loc ≠ none →
    t'.lookup loc = some .dir ∧ ∃ path ∈ paths, Names t' path loc

variable {t t' u : FileTree (List Char)} {paths : List (List Char)} {part : List Char} {c : Char}

theorem leadsToDir_iff : leadsToDir t path = true ↔ ∃ parsed, parse path = .ok parsed ∧ t.stat parsed = .ok .dir := by
  rw [leadsToDir, decide_eq_true_iff]
  cases read : parse path with
  | error err => exact ⟨nofun, nofun⟩
  | ok parsed =>
    constructor
    · exact fun known => ⟨parsed, rfl, known⟩
    · rintro ⟨_, ⟨⟩, known⟩
      exact known

private theorem leadsToDir_mono (contains : Contains t' t) (dir : leadsToDir t path = true) :
    leadsToDir t' path = true := by
  obtain ⟨parsed, same, known⟩ := leadsToDir_iff.mp dir
  exact leadsToDir_iff.mpr ⟨parsed, same, contains.stat known⟩

theorem Names.mono {loc : Loc (List Char)} (contains : Contains t' t) (names : Names t path loc) :
    Names t' path loc := by
  obtain ⟨parsed, same, found⟩ := names
  exact ⟨parsed, same, contains.locate found⟩

theorem Made.nil (t : FileTree (List Char)) : Made [] t t := ⟨.refl t, nofun, fun _ absent there => absurd absent there⟩

theorem Made.cons (first : Made [path] t u) (rest : Made paths u t') : Made (path :: paths) t t' where
  contains := rest.contains.trans first.contains
  dirs := by
    intro other member
    rcases List.mem_cons.mp member with rfl | later
    · exact leadsToDir_mono rest.contains (first.dirs other List.mem_cons_self)
    · exact rest.dirs other later
  new loc absent there := by
    cases before : u.lookup loc with
    | none =>
      obtain ⟨dir, other, member, names⟩ := rest.new loc before there
      exact ⟨dir, other, List.mem_cons_of_mem _ member, names⟩
    | some entry =>
      obtain ⟨dir, other, member, names⟩ := first.new loc absent (by rw [before]; simp)
      obtain rfl := List.mem_singleton.mp member
      exact ⟨rest.contains.lookup loc .dir dir, other, List.mem_cons_self, names.mono rest.contains⟩

/-- Why `mkpath` stops at a prefix. -/
def Stops (t : FileTree (List Char)) (path : List Char) (err : Errc) : Prop :=
  err = .notADirectory ∨ ∀ parsed parent trail, parse path = .ok parsed →
    Leads t { parsed with comps := parsed.comps.dropLast } parent trail → t.lookup parent ≠ some .dir

/-- One prefix. -/
theorem mkdir_spec (path : List Char) (disk : Disk) :
    ∃ ret t', mkdir path disk = (.done ret, ⟨t', disk.made ++ [path]⟩) ∧
      ((ret = .ok () ∧ Made [path] disk.tree t') ∨
        ∃ err, ret = .error err ∧ t' = disk.tree ∧ (err ≠ .fileExists → Stops disk.tree path err)) := by
  cases called : parse path >>= fun path => disk.tree.mkdir path with
  | ok t' =>
    refine ⟨.ok (), t', ?_, .inl ⟨rfl, ?_⟩⟩
    · simp only [mkdir, bind_apply, Exec.modify, Exec.get, called]
      rfl
    · cases read : parse path with
      | error err =>
        rw [read] at called
        cases called
      | ok parsed =>
        rw [read] at called
        obtain ⟨loc, _, dir, others, contains, located, known⟩ := mkdir_ok called
        refine ⟨contains, fun other member => ?_, fun other absent there => ?_⟩
        · rw [List.mem_singleton.mp member]
          exact leadsToDir_iff.mpr ⟨parsed, read, known⟩
        · by_cases same : other = loc
          · rw [same]
            exact ⟨dir, path, List.mem_singleton_self _, parsed, read, located⟩
          · rw [others other same] at there
            exact absurd absent there
  | error err =>
    refine ⟨.error err, disk.tree, ?_, .inr ⟨err, rfl, rfl, fun other => .inr ?_⟩⟩
    · simp only [mkdir, bind_apply, Exec.modify, Exec.get, called]
      rfl
    · intro parsed parent trail read leads
      rw [read] at called
      exact mkdir_error called other leads

private theorem mkall_spec (paths : List (List Char)) : ∀ disk, ∃ t',
    (mkall paths disk = (.done (.ok ()), ⟨t', disk.made ++ paths⟩) ∧ Made paths disk.tree t') ∨
      ∃ before last after err, paths = before ++ last :: after ∧
        mkall paths disk = (.done (.error err), ⟨t', disk.made ++ before ++ [last]⟩) ∧ Made before disk.tree t' ∧
        Stops t' last err := by
  induction paths with
  | nil => exact fun disk => ⟨disk.tree, .inl ⟨by rw [List.append_nil]; rfl, .nil _⟩⟩
  | cons path paths ih =>
    intro disk
    obtain ⟨ret, u, called, outcome⟩ := mkdir_spec path disk
    have goes (next : mkall (path :: paths) disk = mkall paths ⟨u, disk.made ++ [path]⟩)
      (made : Made [path] disk.tree u) :
        ∃ t', (mkall (path :: paths) disk = (.done (.ok ()), ⟨t', disk.made ++ path :: paths⟩) ∧
          Made (path :: paths) disk.tree t') ∨ ∃ before last after err, path :: paths = before ++ last :: after ∧
            mkall (path :: paths) disk = (.done (.error err), ⟨t', disk.made ++ before ++ [last]⟩) ∧
            Made before disk.tree t' ∧ Stops t' last err := by
      obtain ⟨t', ⟨done, rest⟩ | ⟨before, last, after, err, split, failed, rest, stops⟩⟩ := ih ⟨u, disk.made ++ [path]⟩
      · refine ⟨t', .inl ⟨?_, made.cons rest⟩⟩
        rw [next, done]
        simp
      · refine ⟨t', .inr ⟨path :: before, last, after, err, by rw [split]; rfl, ?_, made.cons rest, stops⟩⟩
        rw [next, failed]
        simp
    have step : mkall (path :: paths) disk = goOn path (mkall paths) ret ⟨u, disk.made ++ [path]⟩ := bind_done called
    have ends {err : Errc}
      (failed : mkall (path :: paths) disk = (.done (.error err), ⟨disk.tree, disk.made ++ [path]⟩))
        (stops : Stops disk.tree path err) : ∃ before last after err, path :: paths = before ++ last :: after ∧
          mkall (path :: paths) disk = (.done (.error err), ⟨disk.tree, disk.made ++ before ++ [last]⟩) ∧
          Made before disk.tree disk.tree ∧ Stops disk.tree last err :=
      ⟨[], path, paths, err, rfl, by rw [List.append_nil]; exact failed, .nil _, stops⟩
    rcases outcome with ⟨rfl, made⟩ | ⟨err, rfl, rfl, stops⟩
    · exact goes step made
    · by_cases exists' : err = .fileExists
      · cases known : leadsToDir disk.tree path with
        | false =>
          refine ⟨disk.tree, .inr (ends ?_ (.inl rfl))⟩
          rw [step, exists']
          change (if leadsToDir disk.tree path = false then _ else _ : Exec Disk (Except Errc Unit)) _ = _
          rw [if_pos known]
          rfl
        | true =>
          refine goes ?_ ⟨.refl _, fun other member => ?_, fun _ absent there => absurd absent there⟩
          · rw [step, exists']
            change (if leadsToDir disk.tree path = false then _ else _ : Exec Disk (Except Errc Unit)) _ = _
            rw [if_neg (by rw [known]; simp)]
          · rw [List.mem_singleton.mp member]
            exact known
      · refine ⟨disk.tree, .inr (ends ?_ (stops exists'))⟩
        rw [step]
        change (if err ≠ .fileExists then _ else _ : Exec Disk (Except Errc Unit)) _ = _
        rw [if_pos exists']
        rfl

/-! ### How far a prefix is read -/

private theorem comps_append (before after : List Char) :
    comps (before ++ '/' :: after) = comps before ++ comps after := by
  have split : (before ++ '/' :: after).splitOn '/' = before.splitOn '/' ++ after.splitOn '/' :=
    List.splitOnP_append_cons before after rfl
  rw [comps, split, List.filter_append, List.map_append]
  rfl

private theorem comps_single (slash : '/' ∉ part) (some : part ≠ []) : comps part = [comp part] := by
  have whole : part.splitOn '/' = [part] :=
    List.splitOnP_eq_singleton fun c member => beq_eq_false_iff_ne.mpr fun same => slash (same ▸ member)
  rw [comps, whole]
  simp [some]

private theorem comps_ne_nil (notSlash : c ≠ '/') (text : List Char) : comps (c :: text) ≠ [] := by
  have split : (c :: text).splitOn '/' = (text.splitOn '/').modifyHead (c :: ·) := by
    have other : (c == '/') = false := beq_eq_false_iff_ne.mpr notSlash
    rw [List.splitOn, List.splitOnP_cons_eq_if_modifyHead, if_neg (by rw [other]; simp)]
    rfl
  cases rest : text.splitOn '/' with
  | nil => exact absurd rest (by simp [List.splitOn])
  | cons first later =>
    rw [comps, split, rest]
    simp

/-- A text with its last component. -/
theorem exists_last_slash {text : List Char} (slash : '/' ∈ text) :
    ∃ before part, text = before ++ '/' :: part ∧ '/' ∉ part := by
  obtain ⟨front, back, split, absent⟩ := List.eq_append_cons_of_mem (List.mem_reverse.mpr slash)
  refine ⟨back.reverse, front.reverse, ?_, by simpa using absent⟩
  rw [← List.reverse_reverse text, split]
  simp

/-- What is read before the last component of a prefix is read of the whole, too. -/
theorem comps_dropLast {text : List Char} (more : List Char) (last : text.getLast? = some c) (notSlash : c ≠ '/') :
    (comps text).dropLast <+: (comps (text ++ more)).dropLast := by
  by_cases slash : '/' ∈ text
  · obtain ⟨before, part, rfl, absent⟩ := exists_last_slash slash
    have some : part ≠ [] := by
      rintro rfl
      rw [List.getLast?_concat] at last
      exact notSlash (Option.some.inj last).symm
    obtain ⟨first, part, rfl⟩ := List.exists_cons_of_ne_nil some
    have notSlash : first ≠ '/' := fun same => absent (same ▸ List.mem_cons_self)
    rw [List.append_assoc, List.cons_append, comps_append, comps_append, comps_single absent some, List.dropLast_concat,
      List.cons_append, List.dropLast_append_of_ne_nil (comps_ne_nil notSlash _)]
    exact List.prefix_append _ _
  · have some : text ≠ [] := by
      rintro rfl
      cases last
    rw [comps_single slash some]
    exact List.nil_prefix

theorem parse_eq_ok {parsed : FileTree.Path (List Char)} : parse path = .ok parsed ↔
    ∃ text, path.takeWhile (fun c => decide (c ≠ '\x00')) = text ∧ text ≠ [] ∧
      parsed = { absolute := decide (text.head? = some '/'), comps := comps text } := by
  rw [parse]
  constructor
  · intro read
    split at read
    · cases read
    · rename_i some
      exact ⟨_, rfl, some, (Except.ok.inj read).symm⟩
  · rintro ⟨text, rfl, some, rfl⟩
    exact if_neg some

/-- If a path can be read then so can a prefix that ends with a component, and its parent is on the way to that of the
path. -/
theorem parse_prefix (begins : part <+: path) (last : part.getLast? = some c) (notSlash : c ≠ '/')
    {parsed : FileTree.Path (List Char)} (read : parse path = .ok parsed) :
    ∃ first, parse part = .ok first ∧ first.absolute = parsed.absolute ∧
      first.comps.dropLast <+: parsed.comps.dropLast := by
  obtain ⟨more, rfl⟩ := begins
  obtain ⟨text, same, some, rfl⟩ := parse_eq_ok.mp read
  rw [List.takeWhile_append] at same
  split at same
  · -- The prefix is read to its end.
    rename_i whole
    have all : part.takeWhile (fun c => decide (c ≠ '\x00')) = part :=
      (List.takeWhile_prefix _).eq_of_length whole
    obtain ⟨first, part, rfl⟩ := List.exists_cons_of_ne_nil (l := part) (by rintro rfl; cases last)
    subst same
    exact ⟨_, parse_eq_ok.mpr ⟨_, all, List.cons_ne_nil _ _, rfl⟩, rfl, comps_dropLast _ last notSlash⟩
  · exact ⟨_, parse_eq_ok.mpr ⟨_, same, some, rfl⟩, rfl, List.prefix_refl _⟩

private theorem prefixes_ends (member : part ∈ prefixes path) : ∃ c, part.getLast? = some c ∧ c ≠ '/' := by
  obtain ⟨n, among, rfl⟩ := List.mem_map.mp member
  have ends := (List.mem_filter.mp among).2
  rw [endsPart, Bool.and_eq_true] at ends
  cases last : (path.take n).getLast? with
  | none =>
    rw [last] at ends
    cases ends.1
  | some c =>
    rw [last] at ends
    refine ⟨c, rfl, ?_⟩
    rintro rfl
    cases ends.1

private theorem prefixes_pairwise (path : List Char) : (prefixes path).Pairwise (· <+: ·) := by
  rw [prefixes, List.pairwise_map]
  refine List.Pairwise.filter _ (List.pairwise_lt_range.imp fun less => ?_)
  exact List.take_prefix_take_left (Nat.le_of_lt less)

/-- A prefix at which there is something that is no directory is an error of that kind. -/
theorem Stops.blocked {before after : List (List Char)} {last part : List Char} {err : Errc}
    (split : prefixes path = before ++ last :: after) (made : Made before t t') (stops : Stops t' last err)
    (member : part ∈ prefixes path) (blocked : Blocked t' part) : err = .notADirectory := by
  refine stops.resolve_right fun stuck => ?_
  obtain ⟨⟨loc, ⟨parsed, read, found⟩, _⟩, other⟩ := blocked
  obtain ⟨above, parent, trail, n, rfl, leads, dir, rfl⟩ := locate_iff.mp found
  have later (begins : last <+: part) : False := by
    have among : last ∈ prefixes path := by rw [split]; simp
    obtain ⟨c, ends, notSlash⟩ := prefixes_ends among
    obtain ⟨first, read', absolute, begins⟩ := parse_prefix begins ends notSlash read
    rw [List.dropLast_concat] at begins
    obtain ⟨more, same⟩ := begins
    have whole : above = { absolute := first.absolute, comps := first.comps.dropLast ++ more } := by
      rw [same, absolute]
    rw [whole] at leads
    obtain ⟨middle, seen, leads', dir'⟩ := leads.before dir
    exact stuck first middle seen read' leads' dir'
  have ordered := prefixes_pairwise path
  rw [split] at ordered member
  rcases List.mem_append.mp member with early | member
  · rw [made.dirs part early] at other
    cases other
  · rcases List.mem_cons.mp member with rfl | late
    · exact later (List.prefix_refl _)
    · exact later ((List.pairwise_cons.mp (List.pairwise_append.mp ordered).2.1).1 part late)

theorem Blocked.mono (contains : Contains t' t) (blocked : Blocked t path) (other : leadsToDir t' path = false) :
    Blocked t' path := by
  obtain ⟨⟨loc, names, there⟩, _⟩ := blocked
  obtain ⟨entry, found⟩ := Option.ne_none_iff_exists'.mp there
  refine ⟨⟨loc, names.mono contains, ?_⟩, other⟩
  rw [contains.lookup loc entry found]
  exact Option.some_ne_none entry

private theorem mkpath_eq {rounds : ℕ} (enough : path.length < rounds) :
    mkpath rounds path = mkall (prefixes path) := by
  rw [prefixes_eq, mkpath]
  split
  · rename_i empty
    rw [List.length_eq_zero_iff.mp empty]
    rfl
  · have start : skipSlash path 0 = skipSlash (path.drop 0) 0 := rfl
    obtain ⟨_, inside, _, stops⟩ := advance_path isSlash (Nat.zero_le path.length)
    rw [prefixesAfter_skipSlash (Nat.zero_le path.length), start]
    exact mkparts_eq path rounds _ inside (by omega) stops

/-- `mkpath` ends; it makes the directories of the prefixes of the path in turn, all of them or up to one at which it
fails. If there was something at a prefix that is no directory, it fails with `not_a_directory`, unless that has become
a link to a directory meanwhile. -/
theorem mkpath_makes (path : List Char) (t : FileTree (List Char)) (rounds : ℕ) (enough : path.length < rounds) :
    ∃ t', (mkpath rounds path ⟨t, []⟩ = (.done (.ok ()), ⟨t', prefixes path⟩) ∧ Made (prefixes path) t t') ∨
      ∃ before last after err, prefixes path = before ++ last :: after ∧
        mkpath rounds path ⟨t, []⟩ = (.done (.error err), ⟨t', before ++ [last]⟩) ∧ Made before t t' ∧
        ∀ part ∈ prefixes path, Blocked t part → err = .notADirectory ∨ leadsToDir t' part = true := by
  rw [mkpath_eq enough]
  obtain ⟨t', done | ⟨before, last, after, err, split, failed, made, stops⟩⟩ := mkall_spec (prefixes path) ⟨t, []⟩
  · exact ⟨t', .inl done⟩
  · refine ⟨t', .inr ⟨before, last, after, err, split, failed, made, fun part member blocked => ?_⟩⟩
    cases known : leadsToDir t' part with
    | true => exact .inr rfl
    | false => exact .inl (stops.blocked split made member (blocked.mono made.contains known))

/-- A directory with a file in it, which is the working directory. -/
def plain : FileTree (List Char) where
  entries := List.toAList [⟨["d".toList], .dir⟩, ⟨["d".toList, "file".toList], .file⟩]
  cwd := ["d".toList]
  maxLinks := 40
  rooted loc member := by
    rw [AList.mem_keys] at member
    revert loc
    decide +kernel

/-- Separators of both kinds, repeated and at the end. -/
def scattered : List Char := "a//file\\/../b/".toList

theorem scattered_makes :
    prefixes scattered = ["a".toList, "a//file".toList, "a//file\\/..".toList, "a//file\\/../b".toList] ∧
    ∃ t', (mkpath 99 scattered ⟨plain, []⟩ = (.done (.ok ()), ⟨t', prefixes scattered⟩) ∧
        Made (prefixes scattered) plain t') ∨
      ∃ before last after err, prefixes scattered = before ++ last :: after ∧
        mkpath 99 scattered ⟨plain, []⟩ = (.done (.error err), ⟨t', before ++ [last]⟩) ∧ Made before plain t' ∧
        ∀ part ∈ prefixes scattered, Blocked plain part → err = .notADirectory ∨ leadsToDir t' part = true :=
  ⟨by decide +kernel, mkpath_makes scattered plain 99 (by decide +kernel)⟩

end UniEvent.Fs
