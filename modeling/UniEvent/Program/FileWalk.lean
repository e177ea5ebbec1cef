import UniEvent.Program.FileTree

/-! # Walks through a file tree

A walk that comes to an end depends on the entries it has passed, and on nothing else. So what a path leads to in a
tree, it leads to in every tree that contains it; a path to a directory goes on to what is in there; and all that comes
before is a directory too.
-/

namespace Program.FileTree

variable {ν : Type} [DecidableEq ν] {t t' : FileTree ν} {entry : Entry ν}

/-! ### What a walk depends on -/

/-- A walk that comes to an end. -/
inductive Walks (t : FileTree ν) : ℕ → Loc ν → List (Comp ν) → Loc ν → List (Loc ν) → Prop
  | nil {links : ℕ} {loc : Loc ν} : Walks t links loc [] loc []
  | here {links : ℕ} {loc last : Loc ν} {rest : List (Comp ν)} {trail : List (Loc ν)}
      (walks : Walks t links loc rest last trail) : Walks t links loc (.here :: rest) last trail
  | up {links : ℕ} {loc last : Loc ν} {rest : List (Comp ν)} {trail : List (Loc ν)}
      (walks : Walks t links loc.dropLast rest last trail) : Walks t links loc (.up :: rest) last trail
  | dir {links : ℕ} {loc last : Loc ν} {n : ν} {rest : List (Comp ν)} {trail : List (Loc ν)}
      (found : t.lookup (loc ++ [n]) = some .dir) (walks : Walks t links (loc ++ [n]) rest last trail) :
      Walks t links loc (.name n :: rest) last ((loc ++ [n]) :: trail)
  | file {links : ℕ} {loc : Loc ν} {n : ν} (found : t.lookup (loc ++ [n]) = some .file) :
      Walks t links loc [.name n] (loc ++ [n]) [loc ++ [n]]
  | link {links : ℕ} {loc last : Loc ν} {n : ν} {target : Path ν} {rest : List (Comp ν)} {trail : List (Loc ν)}
      (found : t.lookup (loc ++ [n]) = some (.link target))
      (walks : Walks t links (target.start loc) (target.comps ++ rest) last trail) :
      Walks t (links + 1) loc (.name n :: rest) last ((loc ++ [n]) :: trail)

section Walks
variable {links : ℕ} {loc last : Loc ν} {comps : List (Comp ν)} {trail : List (Loc ν)}

/-- One step of a walk, whatever `follow` does at links. -/
private theorem walkWith_walks {follow : Loc ν → List (Comp ν) → Except Errc (Loc ν × List (Loc ν))}
    (follows : ∀ {loc comps last trail target n rest}, t.lookup (loc ++ [n]) = some (.link target) →
      comps = target.comps ++ rest → follow (target.start loc) comps = .ok (last, trail) →
      Walks t links loc (.name n :: rest) last ((loc ++ [n]) :: trail)) :
    ∀ comps loc {last trail}, t.walkWith follow loc comps = .ok (last, trail) → Walks t links loc comps last trail := by
  intro comps
  induction comps with
  | nil =>
    rintro loc last trail ⟨⟩
    exact .nil
  | cons comp rest ih =>
    intro loc last trail found
    have seen {end' : Except Errc (Loc ν × List (Loc ν))} {n : ν}
        (mapped : (end'.map fun end' => (end'.1, (loc ++ [n]) :: end'.2)) = .ok (last, trail)) :
        ∃ rest, trail = (loc ++ [n]) :: rest ∧ end' = .ok (last, rest) := by
      cases end' with
      | error err => cases mapped
      | ok end' =>
        cases mapped
        exact ⟨end'.2, rfl, rfl⟩
    cases comp with
    | here => exact .here (ih loc found)
    | up => exact .up (ih loc.dropLast found)
    | name n =>
      rw [walkWith] at found
      dsimp only at found
      split at found
      · cases found
      · rename_i dir
        obtain ⟨trail, rfl, next⟩ := seen found
        exact .dir dir (ih _ next)
      · rename_i file
        split at found
        · rename_i empty
          obtain ⟨trail, rfl, next⟩ := seen found
          cases next
          rw [empty]
          exact .file file
        · cases found
      · rename_i target link
        obtain ⟨trail, rfl, next⟩ := seen found
        exact follows link rfl next

private theorem walk_iff : t.walk links loc comps = .ok (last, trail) ↔ Walks t links loc comps last trail := by
  constructor
  · intro found
    induction links generalizing loc comps last trail with
    | zero =>
      refine walkWith_walks (fun _ _ never => ?_) comps loc found
      cases never
    | succ links ih =>
      refine walkWith_walks (fun link same next => ?_) comps loc found
      rw [same] at next
      exact .link link (ih next)
  · intro walks
    have goes (links : ℕ) : ∃ follow, t.walk links = t.walkWith follow := by
      cases links with
      | zero => exact ⟨_, rfl⟩
      | succ links => exact ⟨_, rfl⟩
    induction walks with
    | @nil links loc =>
      obtain ⟨follow, same⟩ := goes links
      rw [same]
      rfl
    | @here links _ _ _ _ _ ih | @up links _ _ _ _ _ ih =>
      obtain ⟨follow, same⟩ := goes links
      rw [same] at ih ⊢
      exact ih
    | @dir links _ _ _ _ _ found _ ih =>
      obtain ⟨follow, same⟩ := goes links
      rw [same] at ih ⊢
      rw [walkWith, found]
      dsimp only
      rw [ih]
      rfl
    | @file links _ _ found =>
      obtain ⟨follow, same⟩ := goes links
      rw [same, walkWith, found]
      rfl
    | @link links _ _ _ _ _ _ found _ ih =>
      change t.walkWith (t.walk links) _ _ = _
      rw [walkWith, found]
      dsimp only
      rw [ih]
      rfl

section

variable (walks : Walks t links loc comps last trail)

include walks

theorem Walks.found : ∀ seen ∈ trail, (t.lookup seen).isSome = true := by
  induction walks with
  | nil => simp
  | here _ ih | up _ ih => exact ih
  | dir found _ ih | link found _ ih =>
    intro seen member
    rcases List.mem_cons.mp member with rfl | later
    · rw [found]
      rfl
    · exact ih seen later
  | file found =>
    intro seen member
    rw [List.mem_singleton.mp member, found]
    rfl

/-- A walk depends on what it has seen only. -/
theorem Walks.congr (same : ∀ seen ∈ trail, t'.lookup seen = t.lookup seen) : Walks t' links loc comps last trail := by
  induction walks with
  | nil => exact .nil
  | here _ ih => exact .here (ih same)
  | up _ ih => exact .up (ih same)
  | dir found _ ih =>
    exact .dir ((same _ List.mem_cons_self).trans found)
      (ih fun seen member => same seen (List.mem_cons_of_mem _ member))
  | file found => exact .file ((same _ List.mem_cons_self).trans found)
  | link found _ ih =>
    exact .link ((same _ List.mem_cons_self).trans found)
      (ih fun seen member => same seen (List.mem_cons_of_mem _ member))

/-- A walk to a directory goes on to a directory in it. -/
theorem Walks.child {n : ν} (dir : t.lookup last = some .dir)
    (found : t.lookup (last ++ [n]) = some .dir) :
    Walks t links loc (comps ++ [.name n]) (last ++ [n]) (trail ++ [last ++ [n]]) := by
  induction walks with
  | nil => exact .dir found .nil
  | here _ ih => exact .here (ih dir found)
  | up _ ih => exact .up (ih dir found)
  | dir there _ ih => exact .dir there (ih dir found)
  | file there =>
    rw [there] at dir
    cases dir
  | link there _ ih =>
    have next := ih dir found
    rw [List.append_assoc] at next
    exact .link there next

end

private theorem dropLast_dir (dir : t.lookup loc = some .dir) : t.lookup loc.dropLast = some .dir := by
  by_cases root : loc = []
  · rw [root]
    rfl
  · exact (t.rooted loc (mem_entries root dir)).2

private theorem start_dir (path : Path ν) (dir : t.lookup loc = some .dir) : t.lookup (path.start loc) = some .dir := by
  rw [Path.start]
  split
  · rfl
  · exact dir

/-- On the way to a directory there are only directories. -/
theorem Walks.before {later : List (Comp ν)} (walks : Walks t links loc (comps ++ later) last trail)
    (start : t.lookup loc = some .dir) (dir : t.lookup last = some .dir) :
    ∃ middle seen, Walks t links loc comps middle seen ∧ t.lookup middle = some .dir := by
  generalize whole : comps ++ later = all at walks
  induction walks generalizing comps with
  | nil =>
    rw [(List.append_eq_nil_iff.mp whole).1]
    exact ⟨_, [], .nil, start⟩
  | here _ ih =>
    cases comps with
    | nil => exact ⟨_, [], .nil, start⟩
    | cons comp comps =>
      obtain ⟨rfl, rest⟩ := List.cons.inj whole
      obtain ⟨middle, seen, walks, there⟩ := ih start dir rest
      exact ⟨middle, seen, .here walks, there⟩
  | up _ ih =>
    cases comps with
    | nil => exact ⟨_, [], .nil, start⟩
    | cons comp comps =>
      obtain ⟨rfl, rest⟩ := List.cons.inj whole
      obtain ⟨middle, seen, walks, there⟩ := ih (dropLast_dir start) dir rest
      exact ⟨middle, seen, .up walks, there⟩
  | dir found _ ih =>
    cases comps with
    | nil => exact ⟨_, [], .nil, start⟩
    | cons comp comps =>
      obtain ⟨rfl, rest⟩ := List.cons.inj whole
      obtain ⟨middle, seen, walks, there⟩ := ih found dir rest
      exact ⟨middle, _, .dir found walks, there⟩
  | file found =>
    rw [found] at dir
    cases dir
  | @link _ loc _ _ target _ _ found _ ih =>
    cases comps with
    | nil => exact ⟨_, [], .nil, start⟩
    | cons comp comps =>
      obtain ⟨rfl, rest⟩ := List.cons.inj whole
      have further : (target.comps ++ comps) ++ later = target.comps ++ _ :=
        (List.append_assoc ..).trans (congrArg (target.comps ++ ·) rest)
      obtain ⟨middle, seen, walks, there⟩ := ih (start_dir target start) dir further
      exact ⟨middle, _, .link found walks, there⟩

end Walks

/-! ### What a path leads to -/

/-- A path leads to `loc`, by way of `trail`. -/
structure Leads (t : FileTree ν) (path : Path ν) (loc : Loc ν) (trail : List (Loc ν)) : Prop where
  start : t.lookup (path.start t.cwd) = some .dir
  walks : ∃ rest, trail = path.start t.cwd :: rest ∧ Walks t t.maxLinks (path.start t.cwd) path.comps loc rest

section Leads
variable {path : Path ν} {loc : Loc ν} {trail : List (Loc ν)}

theorem resolve_iff : t.resolve path = .ok (loc, trail) ↔ Leads t path loc trail := by
  constructor
  · intro found
    rw [resolve] at found
    split at found
    · rename_i start
      cases walked : t.walk t.maxLinks (path.start t.cwd) path.comps with
      | error err =>
        rw [walked] at found
        cases found
      | ok end' =>
        rw [walked] at found
        cases found
        exact ⟨start, end'.2, rfl, walk_iff.mp walked⟩
    · cases found
  · rintro ⟨start, rest, rfl, walks⟩
    rw [resolve, if_pos start, walk_iff.mpr walks]
    rfl

section

variable (leads : Leads t path loc trail)

include leads

theorem Leads.found : ∀ seen ∈ trail, (t.lookup seen).isSome = true := by
  obtain ⟨rest, rfl, walks⟩ := leads.walks
  intro seen member
  rcases List.mem_cons.mp member with rfl | later
  · rw [leads.start]
    rfl
  · exact walks.found seen later

theorem Leads.congr (cwd : t'.cwd = t.cwd) (maxLinks : t'.maxLinks = t.maxLinks)
    (same : ∀ seen ∈ trail, t'.lookup seen = t.lookup seen) : Leads t' path loc trail := by
  obtain ⟨rest, rfl, walks⟩ := leads.walks
  have start := (same _ List.mem_cons_self).trans leads.start
  have walks := walks.congr fun seen member => same seen (List.mem_cons_of_mem _ member)
  rw [← cwd] at start
  refine ⟨start, rest, by rw [cwd], ?_⟩
  rw [cwd, maxLinks]
  exact walks

theorem Leads.child {n : ν} (dir : t.lookup loc = some .dir)
    (found : t.lookup (loc ++ [n]) = some .dir) :
    Leads t { path with comps := path.comps ++ [.name n] } (loc ++ [n]) (trail ++ [loc ++ [n]]) := by
  obtain ⟨rest, rfl, walks⟩ := leads.walks
  exact ⟨leads.start, rest ++ [loc ++ [n]], rfl, walks.child dir found⟩

/-- The entry with a given name in the directory a path leads to. -/
theorem Leads.locate_child (dir : t.lookup loc = some .dir) (n : ν) :
    t.locate { path with comps := path.comps ++ [.name n] } = .ok (loc ++ [n]) := by
  refine locate_eq_ok.mpr ⟨n, loc, trail, List.getLast?_concat, ?_, dir, rfl⟩
  rw [resolve_iff]
  simpa using leads

end

/-- The entry that a path names stands in the directory that the path without its last component leads to. -/
theorem locate_iff :
    t.locate path = .ok loc ↔ ∃ above parent trail n, path = { above with comps := above.comps ++ [.name n] } ∧
    Leads t above parent trail ∧ t.lookup parent = some .dir ∧ loc = parent ++ [n] := by
  constructor
  · intro found
    obtain ⟨n, parent, trail, last, resolved, dir, rfl⟩ := locate_eq_ok.mp found
    refine ⟨_, parent, trail, n, ?_, resolve_iff.mp resolved, dir, rfl⟩
    rw [List.dropLast_append_getLast? _ last]
  · rintro ⟨above, parent, trail, n, rfl, leads, dir, rfl⟩
    exact leads.locate_child dir n

theorem Leads.unique {loc' : Loc ν} {trail' : List (Loc ν)} (leads : Leads t path loc trail)
    (leads' : Leads t path loc' trail') : loc' = loc ∧ trail' = trail := by
  have same := (resolve_iff.mpr leads').symm.trans (resolve_iff.mpr leads)
  cases same
  exact ⟨rfl, rfl⟩

theorem Leads.trail_child (leads : Leads t path loc trail) (n : ν) :
    t.trail { path with comps := path.comps ++ [.name n] } = trail := by
  rw [FileTree.trail, List.dropLast_concat, resolve_iff.mpr leads]

theorem Leads.stat (leads : Leads t path loc trail) (found : t.lookup loc = some entry) : t.stat path = .ok entry := by
  simp only [FileTree.stat, resolve_iff.mpr leads, bind, Except.bind, found]

theorem Leads.before {absolute : Bool} {comps later : List (Comp ν)}
    (leads : Leads t ⟨absolute, comps ++ later⟩ loc trail) (dir : t.lookup loc = some .dir) :
    ∃ middle seen, Leads t ⟨absolute, comps⟩ middle seen ∧ t.lookup middle = some .dir := by
  obtain ⟨rest, rfl, walks⟩ := leads.walks
  obtain ⟨middle, seen, walks, there⟩ := walks.before leads.start dir
  exact ⟨middle, _, ⟨leads.start, seen, rfl, walks⟩, there⟩

end Leads

/-! ### Trees that contain another one -/

/-- All there is in `u` is in `t`, as it is there. -/
structure Contains (t u : FileTree ν) : Prop where
  lookup : ∀ loc entry, u.lookup loc = some entry → t.lookup loc = some entry
  cwd : u.cwd = t.cwd
  maxLinks : u.maxLinks = t.maxLinks

section Contains
variable {u : FileTree ν} {path : Path ν} {loc : Loc ν} {trail : List (Loc ν)}

theorem Contains.refl (t : FileTree ν) : Contains t t := ⟨fun _ _ => id, rfl, rfl⟩

theorem Contains.trans (first : Contains t t') (second : Contains t' u) : Contains t u where
  lookup loc entry found := first.lookup loc entry (second.lookup loc entry found)
  cwd := second.cwd.trans first.cwd
  maxLinks := second.maxLinks.trans first.maxLinks

theorem Contains.leads (contains : Contains t u) (leads : Leads u path loc trail) : Leads t path loc trail := by
  refine leads.congr contains.cwd.symm contains.maxLinks.symm fun seen member => ?_
  obtain ⟨entry, found⟩ := Option.isSome_iff_exists.mp (leads.found seen member)
  rw [found]
  exact contains.lookup seen entry found

theorem Contains.erase (contains : Contains t u) (leaf : u.Leaf loc) (named : loc ≠ []) :
    Contains t (u.erase loc leaf) where
  lookup other entry found := by
    by_cases same : other = loc
    · rw [same, erase_lookup_self leaf named] at found
      cases found
    · rw [erase_lookup_of_ne leaf same] at found
      exact contains.lookup other entry found
  cwd := contains.cwd
  maxLinks := contains.maxLinks

private theorem insert_contains {named : loc ≠ []} {parent : t.lookup loc.dropLast = some .dir}
    {absent : t.lookup loc = none} : Contains (t.insert loc entry named parent absent) t where
  lookup other kind found := by
    have different : other ≠ loc := fun same => by rw [same, absent] at found; cases found
    rw [insert_lookup, if_neg different]
    exact found
  cwd := rfl
  maxLinks := rfl

theorem Contains.locate (contains : Contains t u) (found : u.locate path = .ok loc) : t.locate path = .ok loc := by
  obtain ⟨above, parent, trail, n, rfl, leads, dir, rfl⟩ := locate_iff.mp found
  exact (contains.leads leads).locate_child (contains.lookup parent .dir dir) n

private theorem stat_eq_ok (known : t.stat path = .ok entry) :
    ∃ loc trail, Leads t path loc trail ∧ t.lookup loc = some entry := by
  cases resolved : t.resolve path with
  | error err => simp [FileTree.stat, resolved, bind, Except.bind] at known
  | ok last =>
    simp only [FileTree.stat, resolved, bind, Except.bind] at known
    split at known
    · rename_i kind found
      cases known
      exact ⟨last.1, last.2, resolve_iff.mp resolved, found⟩
    · cases known

theorem Contains.stat (contains : Contains t u) (known : u.stat path = .ok entry) : t.stat path = .ok entry := by
  obtain ⟨loc, trail, leads, found⟩ := stat_eq_ok known
  exact (contains.leads leads).stat (contains.lookup loc entry found)

end Contains

/-! ### Making a directory -/

section Mkdir
variable {path : Path ν}

/-- A directory that is made is where the path says, and nothing else changes. -/
theorem mkdir_ok (made : t.mkdir path = .ok t') : ∃ loc, t.lookup loc = none ∧ t'.lookup loc = some .dir ∧
    (∀ other, other ≠ loc → t'.lookup other = t.lookup other) ∧ Contains t' t ∧ t'.locate path = .ok loc ∧
    t'.stat path = .ok .dir := by
  cases resolved : t.resolve { path with comps := path.comps.dropLast } with
  | error err => simp [mkdir, resolved, bind, Except.bind] at made
  | ok parent =>
    simp only [mkdir, resolved, bind, Except.bind] at made
    split at made
    · rename_i dir
      split at made
      · rename_i n last
        split at made
        · rename_i absent
          have there : t'.lookup (parent.1 ++ [n]) = some .dir := by
            cases made
            rw [insert_lookup, if_pos rfl]
          have others (other : Loc ν) (different : other ≠ parent.1 ++ [n]) : t'.lookup other = t.lookup other := by
            cases made
            rw [insert_lookup, if_neg different]
          have contains : Contains t' t := by
            cases made
            exact insert_contains
          have leads := contains.leads (resolve_iff.mp resolved)
          have dir' := contains.lookup _ _ dir
          have whole : { path with comps := path.comps.dropLast ++ [.name n] } = path := by
            rw [List.dropLast_append_getLast? _ last]
          have located := leads.locate_child dir' n
          have known := (leads.child dir' there).stat there
          rw [whole] at located known
          exact ⟨parent.1 ++ [n], absent, there, others, contains, located, known⟩
        · cases made
      · cases made
    · cases made

/-- Otherwise there is something at the path already, or its parent is no directory. -/
theorem mkdir_error {err : Errc} (failed : t.mkdir path = .error err) (other : err ≠ .fileExists) {parent : Loc ν}
    {trail : List (Loc ν)} (leads : Leads t { path with comps := path.comps.dropLast } parent trail) :
    t.lookup parent ≠ some .dir := by
  intro dir
  simp only [mkdir, resolve_iff.mpr leads, bind, Except.bind, dif_pos dir] at failed
  split at failed
  · split at failed
    · cases failed
    · cases failed
      exact other rfl
  · cases failed
    exact other rfl

end Mkdir

end Program.FileTree
