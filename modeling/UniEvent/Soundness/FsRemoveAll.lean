import UniEvent.Model.FsPath
import UniEvent.Program.FileWalk
import UniEvent.Program.Keep
import Mathlib.Algebra.Order.BigOperators.Group.List
import Mathlib.Algebra.Order.Group.Nat

/-! # Removing a tree

`remove_all` asks whether the path leads to a directory, with links followed, and then removes what `scandir` finds
there. For a link to a directory that is what the link points to, and the link itself stays, since it is no directory
that `rmdir` could remove. A path that leads through the tree it names is cut off while the tree is removed, and `rmdir`
does not take a path that does not end in a name. Every other path is removed with everything below it, and nothing else
is touched.
-/

namespace UniEvent.Fs

open Program Program.Exec FileTree

variable {ν : Type} [DecidableEq ν] {t t' u : FileTree ν} {path : FileTree.Path ν} {loc : Loc ν} {trail : List (Loc ν)}
  {names : List ν} {n : ν}

/-- What is `gone` is not there any more, and the rest is as it was. -/
structure Without (gone : Loc ν → Prop) (t t' : FileTree ν) : Prop where
  removed : ∀ loc, gone loc → t'.lookup loc = none
  kept : ∀ loc, ¬ gone loc → t'.lookup loc = t.lookup loc
  cwd : t'.cwd = t.cwd
  maxLinks : t'.maxLinks = t.maxLinks

/-- Strictly below `loc`. -/
def Inside (loc other : Loc ν) : Prop := loc <+: other ∧ other ≠ loc

instance (loc other : Loc ν) : Decidable (Inside loc other) := inferInstanceAs (Decidable (_ ∧ _))

/-! ### One call -/

private theorem wp_call {f : FileTree ν → Except Errc (FileTree ν)} {Q : Outcome (Except Errc Unit) → FileTree ν → Prop}
    (succeeds : f t = .ok t') (holds : Q (.done (.ok ())) t') : wp (call f) Q t := by
  simp only [call, wp_bind, wp_get, next_done, succeeds]
  exact holds

private theorem lookup_below_leaf {below : Loc ν} (leaf : t.Leaf loc) (strict : below ≠ []) :
    t.lookup (loc ++ below) = none := by
  obtain ⟨n, rest, rfl⟩ := List.exists_cons_of_ne_nil strict
  by_contra there
  have found : (t.lookup ((loc ++ [n]) ++ rest)).isSome = true := by
    rw [List.append_assoc]
    exact Option.isSome_iff_ne_none.mpr there
  have first : (t.lookup (loc ++ [n])).isSome = true := by
    by_cases last : rest = []
    · rwa [last, List.append_nil] at found
    · rw [above_dir found last]
      rfl
  obtain ⟨entry, first⟩ := Option.isSome_iff_exists.mp first
  exact leaf (loc ++ [n]) (mem_entries (by simp) first) List.dropLast_concat

private theorem erase_without (leaf : t.Leaf loc) (named : loc ≠ []) : Without (loc <+: ·) t (t.erase loc leaf) where
  removed other below := by
    obtain ⟨rest, rfl⟩ := below
    by_cases last : rest = []
    · rw [last, List.append_nil]
      exact erase_lookup_self leaf named
    · rw [erase_lookup_of_ne leaf (by simpa using last)]
      exact lookup_below_leaf leaf last
  kept other outside := erase_lookup_of_ne leaf fun same => outside (same ▸ List.prefix_refl _)
  cwd := rfl
  maxLinks := rfl

private theorem unlink_without (found : t.locate path = .ok loc) (there : (t.lookup loc).isSome = true)
    (other : t.lookup loc ≠ some .dir) :
    wp (call fun t => t.unlink path) (fun o t' => o = .done (.ok ()) ∧ Without (loc <+: ·) t t') t := by
  have present : t.lookup loc ≠ none := Option.isSome_iff_ne_none.mp there
  have removed : t.unlink path = .ok (t.erase loc (leaf_of_not_dir other)) := by
    simp only [unlink, found, bind, Except.bind]
    rw [if_neg present, dif_neg other]
  exact wp_call removed ⟨rfl, erase_without _ (locate_ok found).1⟩

private theorem rmdir_without (found : t.locate path = .ok loc) (dir : t.lookup loc = some .dir) (leaf : t.Leaf loc) :
    wp (call fun t => t.rmdir path) (fun o t' => o = .done (.ok ()) ∧ Without (loc <+: ·) t t') t := by
  have removed : t.rmdir path = .ok (t.erase loc leaf) := by
    simp only [rmdir, found, bind, Except.bind]
    rw [if_neg (by rw [dir]; simp), if_neg (not_not.mpr dir), dif_pos leaf]
  exact wp_call removed ⟨rfl, erase_without _ (locate_ok found).1⟩

/-! ### The loop over a directory -/

/-- Under one of the names in `loc`. -/
def Under (loc : Loc ν) (names : List ν) (other : Loc ν) : Prop := ∃ n ∈ names, loc ++ [n] <+: other

omit [DecidableEq ν] in
theorem Under.inside {other : Loc ν} (under : Under loc names other) : Inside loc other := by
  obtain ⟨n, _, rest, rfl⟩ := under
  exact ⟨⟨[n] ++ rest, by rw [List.append_assoc]⟩, by simp⟩

theorem Without.refl (loc : Loc ν) (t : FileTree ν) : Without (Under loc []) t t where
  removed := by simp [Under]
  kept _ _ := rfl
  cwd := rfl
  maxLinks := rfl

theorem Without.trans_under (first : Without (Under loc names) t u) (second : Without (loc ++ [n] <+: ·) u t') :
    Without (Under loc (names ++ [n])) t t' where
  removed other under := by
    obtain ⟨m, member, below⟩ := under
    by_cases now : loc ++ [n] <+: other
    · exact second.removed other now
    · rw [second.kept other now]
      rcases List.mem_append.mp member with before | last
      · exact first.removed other ⟨m, before, below⟩
      · exact absurd (List.mem_singleton.mp last ▸ below) now
  kept other outside := by
    rw [second.kept other fun now => outside ⟨n, by simp, now⟩]
    exact first.kept other fun ⟨m, member, below⟩ => outside ⟨m, List.mem_append_left _ member, below⟩
  cwd := second.cwd.trans first.cwd
  maxLinks := second.maxLinks.trans first.maxLinks

/-- A name that has not been removed is still there, and nothing below it has changed. -/
theorem Without.under_other (without : Without (Under loc names) t u) (other : n ∉ names) (below : Loc ν) :
    u.lookup (loc ++ [n] ++ below) = t.lookup (loc ++ [n] ++ below) := by
  refine without.kept _ ?_
  rintro ⟨m, member, rest, same⟩
  rw [List.append_assoc, List.append_assoc, List.append_cancel_left_eq, List.cons_append, List.cons_append] at same
  exact other ((List.cons.inj same).1 ▸ member)

theorem Without.leads {last : Loc ν} (without : Without (Under loc names) t u) (leads : Leads t path last trail)
    (outside : ∀ seen ∈ trail, ¬ Inside loc seen) : Leads u path last trail :=
  leads.congr without.cwd without.maxLinks fun seen member => without.kept seen fun under =>
    outside seen member under.inside

section Loop
variable (rm : FileTree.Path ν → Exec (FileTree ν) (Except Errc Unit)) (leads : Leads t path loc trail)
  (outside : ∀ seen ∈ trail, ¬ Inside loc seen)
  (recursive : ∀ n u, Leads u path loc trail → u.lookup (loc ++ [n]) = some .dir →
    (∀ below, u.lookup (loc ++ [n] ++ below) = t.lookup (loc ++ [n] ++ below)) →
    wp (rm (fname path n)) (fun o t' => o = .done (.ok ()) ∧ Without (loc ++ [n] <+: ·) u t') u)

include leads outside recursive in
private theorem rmentries_without (entries : List (ν × FileTree.Entry ν)) : ∀ names u, Without (Under loc names) t u →
    (∀ e ∈ entries, t.lookup (loc ++ [e.1]) = some e.2) → (names ++ entries.map Prod.fst).Nodup →
    wp (rmentries rm path entries)
      (fun o t' => o = .done (.ok ()) ∧ Without (Under loc (names ++ entries.map Prod.fst)) t t') u := by
  induction entries with
  | nil =>
    intro names u without _ _
    rw [List.map_nil, List.append_nil]
    exact ⟨rfl, without⟩
  | cons entry entries ih =>
    intro names u without there unique
    obtain ⟨n, kind⟩ := entry
    rw [List.map_cons, List.append_cons] at unique
    have other : n ∉ names := by
      have fresh := (List.nodup_append.mp (List.nodup_append.mp unique).1).2.2
      exact fun member => fresh n member n List.mem_cons_self rfl
    have leads' := without.leads leads outside
    have same := without.under_other other
    have found : u.lookup (loc ++ [n]) = some kind := by
      have here := same []
      rw [List.append_nil] at here
      exact here.trans (there (n, kind) List.mem_cons_self)
    have dir' : u.lookup loc = some .dir := parent_dir (by rw [found]; rfl)
    have located : u.locate (fname path n) = .ok (loc ++ [n]) := leads'.locate_child dir' n
    have removed : wp (rmentry rm path (n, kind))
        (fun o t' => o = .done (.ok ()) ∧ Without (loc ++ [n] <+: ·) u t') u := by
      rw [rmentry]
      split
      · rename_i real
        change kind = .dir at real
        rw [real] at found
        exact recursive n u leads' found same
      · rename_i real
        exact unlink_without located (by rw [found]; rfl) (by rw [found]; exact fun same => real (Option.some.inj same))
    rw [rmentries, wp_bind]
    refine wp_mono removed ?_
    rintro o t' ⟨rfl, gone⟩
    rw [List.map_cons, List.append_cons]
    exact ih (names ++ [n]) t' (without.trans_under gone)
      (fun e member => there e (List.mem_cons_of_mem _ member)) unique

end Loop

/-- When all names in a directory are removed, it is empty. -/
theorem Without.leaf (without : Without (Under loc ((t.children loc).map Prod.fst)) t u) : u.Leaf loc := by
  rintro inside member rfl
  have named := (u.rooted inside member).1
  have whole : inside.dropLast ++ [inside.getLast named] = inside := List.dropLast_append_getLast named
  have there : (u.lookup inside).isSome = true := by
    rw [lookup, find, if_neg named]
    exact AList.lookup_isSome.mpr member
  by_cases under : Under inside.dropLast ((t.children inside.dropLast).map Prod.fst) inside
  · rw [without.removed inside under] at there
    cases there
  · refine under ⟨inside.getLast named, ?_, [], (List.append_nil _).trans whole⟩
    rw [without.kept inside under] at there
    obtain ⟨entry, found⟩ := Option.isSome_iff_exists.mp there
    rw [← whole] at found
    exact List.mem_map_of_mem (mem_children.mpr found)

theorem Without.trans_all (first : Without (Under loc names) t u) (second : Without (loc <+: ·) u t') :
    Without (loc <+: ·) t t' where
  removed := second.removed
  kept other outside := by
    rw [second.kept other outside]
    exact first.kept other fun under => outside under.inside.1
  cwd := second.cwd.trans first.cwd
  maxLinks := second.maxLinks.trans first.maxLinks

/-- A directory is removed if the path of its parent does not lead through it, and if there is recursion enough for what
is in it. -/
theorem rmtree_without (depth : ℕ) : ∀ {path : FileTree.Path ν} {loc trail t} {n : ν}, Leads t path loc trail →
    t.lookup (loc ++ [n]) = some .dir → (∀ seen ∈ trail, ¬ Inside (loc ++ [n]) seen) →
    (∀ below, (t.lookup (loc ++ [n] ++ below)).isSome = true → below.length < depth) →
    wp (rmtree depth (fname path n)) (fun o t' => o = .done (.ok ()) ∧ Without (loc ++ [n] <+: ·) t t') t := by
  induction depth with
  | zero =>
    intro path loc trail t n _ dir _ deep
    have here := deep [] (by rw [List.append_nil, dir]; rfl)
    exact absurd here (Nat.not_lt_zero _)
  | succ depth ih =>
    intro path loc trail t n leads dir outside deep
    have inner : Leads t (fname path n) (loc ++ [n]) (trail ++ [loc ++ [n]]) :=
      leads.child (parent_dir (by rw [dir]; rfl)) dir
    have outer : ∀ seen ∈ trail ++ [loc ++ [n]], ¬ Inside (loc ++ [n]) seen := by
      intro seen member inside
      rcases List.mem_append.mp member with before | last
      · exact outside seen before inside
      · exact inside.2 (List.mem_singleton.mp last)
    have listed : t.scandir (fname path n) = .ok (t.children (loc ++ [n])) := by
      simp only [scandir, resolve_iff.mpr inner, bind, Except.bind]
      exact if_pos dir
    have loop :=
      rmentries_without (rmtree depth) inner outer (fun m u leads dir same => ?_) (t.children (loc ++ [n])) [] t
      (.refl _ t) (fun e member => mem_children.mp member) (children_nodup _)
    · rw [rmtree, wp_get_bind, listed]
      change wp (rmentries (rmtree depth) (fname path n) (t.children (loc ++ [n])) >>= fun ret => _) _ t
      rw [wp_bind]
      refine wp_mono loop ?_
      rintro o u ⟨rfl, without⟩
      rw [List.nil_append] at without
      have dir' : u.lookup (loc ++ [n]) = some .dir := (without.kept _ fun under => under.inside.2 rfl).trans dir
      have leads' := without.leads leads outside
      have located := leads'.locate_child (parent_dir (by rw [dir']; rfl)) n
      rw [next_done]
      refine wp_mono (rmdir_without located dir' without.leaf) ?_
      rintro o t' ⟨rfl, gone⟩
      exact ⟨rfl, without.trans_all gone⟩
    · -- An entry that is a directory itself.
      refine ih leads dir (fun seen member inside => ?_) fun below there => ?_
      · refine outer seen member ⟨(List.prefix_append _ _).trans inside.1, ?_⟩
        rintro rfl
        have longer := inside.1.length_le
        rw [List.length_append, List.length_singleton] at longer
        exact absurd longer (Nat.not_succ_le_self _)
      · rw [same below, List.append_assoc] at there
        have bound := deep ([m] ++ below) there
        simp only [List.length_append, List.length_singleton] at bound
        omega

/-! ### What is removed is what was there -/

/-- A call that succeeds has found the entry that the path names. -/
theorem rmdir_eq_ok (removed : u.rmdir path = .ok t') :
    ∃ loc, u.locate path = .ok loc ∧ u.lookup loc = some .dir ∧ ∃ leaf : u.Leaf loc, t' = u.erase loc leaf := by
  cases located : u.locate path with
  | error err => simp [rmdir, located, bind, Except.bind] at removed
  | ok loc =>
    simp only [rmdir, located, bind, Except.bind] at removed
    split at removed
    · cases removed
    · split at removed
      · cases removed
      · rename_i dir
        split at removed
        · rename_i leaf
          exact ⟨loc, rfl, not_not.mp dir, leaf, (Except.ok.inj removed).symm⟩
        · cases removed

private theorem unlink_eq_ok (removed : u.unlink path = .ok t') :
    ∃ loc, u.locate path = .ok loc ∧ ∃ leaf : u.Leaf loc, t' = u.erase loc leaf := by
  cases located : u.locate path with
  | error err => simp [unlink, located, bind, Except.bind] at removed
  | ok loc =>
    simp only [unlink, located, bind, Except.bind] at removed
    split at removed
    · cases removed
    · split at removed
      · cases removed
      · exact ⟨loc, rfl, _, (Except.ok.inj removed).symm⟩

private theorem call_contains {f : FileTree ν → Except Errc (FileTree ν)} (contains : Contains t u)
    (shrinks : ∀ u', f u = .ok u' → Contains t u') : Keeps (Contains t) (call f) u := by
  refine .get ?_
  split
  · rename_i u' succeeds
    exact .modified (.pure (shrinks u' succeeds))
  · exact .pure contains

private theorem unlink_contains (contains : Contains t u) (path : FileTree.Path ν) :
    Keeps (Contains t) (call fun t => t.unlink path) u := by
  refine call_contains contains fun u' removed => ?_
  obtain ⟨loc, located, leaf, rfl⟩ := unlink_eq_ok removed
  exact contains.erase leaf (locate_ok located).1

private theorem rmdir_contains (contains : Contains t u) (path : FileTree.Path ν) :
    Keeps (Contains t) (call fun t => t.rmdir path) u := by
  refine call_contains contains fun u' removed => ?_
  obtain ⟨loc, located, _, leaf, rfl⟩ := rmdir_eq_ok removed
  exact contains.erase leaf (locate_ok located).1

private theorem rmentries_contains {rm : FileTree.Path ν → Exec (FileTree ν) (Except Errc Unit)}
    (recursive : ∀ path u, Contains t u → Keeps (Contains t) (rm path) u) (path : FileTree.Path ν)
    (entries : List (ν × FileTree.Entry ν)) :
    ∀ u, Contains t u → Keeps (Contains t) (rmentries rm path entries) u := by
  induction entries with
  | nil => exact fun u contains => .pure contains
  | cons entry entries ih =>
    intro u contains
    have removed : Keeps (Contains t) (rmentry rm path entry) u := by
      rw [rmentry]
      split
      · exact recursive _ u contains
      · exact unlink_contains contains _
    refine removed.bind fun ret u contains => ?_
    split
    · exact ih u contains
    · exact .pure contains

private theorem rmtree_contains (depth : ℕ) :
    ∀ (path : FileTree.Path ν) u, Contains t u → Keeps (Contains t) (rmtree depth path) u := by
  induction depth with
  | zero => exact fun _ u contains => .halt contains
  | succ depth ih =>
    intro path u contains
    refine .get ?_
    split
    · exact .pure contains
    · rename_i entries _
      refine (rmentries_contains ih path entries u contains).bind fun ret u contains => ?_
      split
      · exact rmdir_contains contains path
      · exact .pure contains

/-- A tree is only removed with a last `rmdir` of its path. -/
theorem rmtree_last (depth : ℕ) (path : FileTree.Path ν) (t : FileTree ν) :
    wp (rmtree depth path) (fun o t' => o = .done (.ok ()) → ∃ u, Contains t u ∧ u.rmdir path = .ok t') t := by
  cases depth with
  | zero => rintro ⟨⟩
  | succ depth =>
    rw [rmtree, wp_get_bind]
    split
    · rintro ⟨⟩
    · rename_i entries _
      rw [wp_bind]
      refine wp_mono (rmentries_contains (rmtree_contains depth) path entries t (.refl t)) ?_
      rintro (ret | why) u contains
      · rw [next_done]
        split
        · simp only [call, wp_bind, wp_get, next_done]
          split
          · rename_i t' removed
            exact fun _ => ⟨u, contains, removed⟩
          · rintro ⟨⟩
        · rintro ⟨⟩
      · rintro ⟨⟩

/-! ### remove_all -/

/-- The entry, and what is below it if it is a directory itself. -/
def Named (t : FileTree ν) (loc other : Loc ν) : Prop := other = loc ∨ t.lookup loc = some .dir ∧ loc <+: other

theorem Without.named (without : Without (loc <+: ·) t t') : Without (Named t loc) t t' where
  removed other named := by
    rcases named with rfl | ⟨_, below⟩
    · exact without.removed _ (List.prefix_refl _)
    · exact without.removed _ below
  kept other outside := by
    by_cases below : loc <+: other
    · obtain ⟨rest, rfl⟩ := below
      have strict : rest ≠ [] := fun last => outside (.inl (by rw [last, List.append_nil]))
      rw [without.removed _ (List.prefix_append _ _)]
      cases there : t.lookup (loc ++ rest) with
      | none => rfl
      | some entry =>
        have dir := above_dir (by rw [there]; rfl) strict
        exact absurd (.inr ⟨dir, List.prefix_append _ _⟩) outside
    · exact without.kept other below
  cwd := without.cwd
  maxLinks := without.maxLinks

/-- A tree is finite. -/
theorem exists_depth (t : FileTree ν) : ∃ bound, ∀ other, (t.lookup other).isSome = true → other.length < bound := by
  refine ⟨(t.entries.keys.map List.length).sum + 1, fun other there => Nat.lt_succ_of_le ?_⟩
  by_cases named : other = []
  · rw [named]
    exact Nat.zero_le _
  · obtain ⟨entry, found⟩ := Option.isSome_iff_exists.mp there
    exact List.single_le_sum (by simp) _ (List.mem_map_of_mem (mem_entries named found))

/-- If the tree that a path leads to is removed, then the path names a directory and does not lead through it. -/
theorem removed_outside {above : FileTree.Path ν} {parent : Loc ν} (leads : Leads t above parent trail)
    (contains : Contains t u) (removed : u.rmdir (fname above n) = .ok t') :
    t.lookup (parent ++ [n]) = some .dir ∧ ∀ seen ∈ trail, ¬ Inside (parent ++ [n]) seen := by
  obtain ⟨loc, located, dir, leaf, _⟩ := rmdir_eq_ok removed
  obtain ⟨above', parent', trail', n', same, leads', _, rfl⟩ := locate_iff.mp located
  have names : above.comps ++ [.name n] = above'.comps ++ [.name n'] := congrArg FileTree.Path.comps same
  obtain ⟨comps, last⟩ := List.append_inj' names rfl
  obtain rfl : n = n' := by simpa using last
  obtain rfl : above = above' := by
    have kind := congrArg FileTree.Path.absolute same
    cases above
    cases above'
    simp_all [fname]
  obtain ⟨rfl, rfl⟩ := leads.unique (contains.leads leads')
  refine ⟨contains.lookup _ _ dir, fun seen member inside => ?_⟩
  obtain ⟨rest, rfl⟩ := inside.1
  have there := leads'.found _ member
  rw [lookup_below_leaf leaf fun last => inside.2 (by rw [last, List.append_nil])] at there
  cases there

theorem removeAll_eq (depth : ℕ) (path : FileTree.Path ν) (t : FileTree ν) : removeAll depth path t =
    if t.stat path = .ok .dir then rmtree depth path t else call (fun t => t.unlink path) t := by
  have same : removeAll depth path t = (if decide (t.stat path = .ok .dir) = true then rmtree depth path
    else call fun t => t.unlink path) t := rfl
  rw [same]
  by_cases leadsTo : t.stat path = .ok .dir
  · rw [if_pos (decide_eq_true leadsTo), if_pos leadsTo]
  · rw [if_neg (by simpa using leadsTo), if_neg leadsTo]

def EndsInName (path : FileTree.Path ν) : Bool :=
  match path.comps.getLast? with
  | some (.name _) => true
  | _ => false

/-- The entry that a path names. A path that ends in `.` or `..`, and that of the root, names what it leads to. -/
def entryOf (t : FileTree ν) (path : FileTree.Path ν) : Except Errc (Loc ν) :=
  if EndsInName path = true then t.locate path else (t.resolve path).map Prod.fst

/-- Only a path that ends in a name can be removed. -/
theorem removeAll_endsInName {depth : ℕ} (removed : removeAll depth path t = (.done (.ok ()), t')) :
    EndsInName path = true := by
  have located : ∃ u : FileTree ν, ∃ loc, u.locate path = .ok loc := by
    rw [removeAll_eq] at removed
    split at removed
    · have last := rmtree_last depth path t
      rw [wp, removed] at last
      obtain ⟨u, _, final⟩ := last rfl
      obtain ⟨loc, located, _⟩ := rmdir_eq_ok final
      exact ⟨u, loc, located⟩
    · cases unlinked : t.unlink path with
      | error err =>
        have failed : wp (call fun t => t.unlink path) (fun o _ => o = .done (.error err)) t := by
          simp only [call, wp_bind, wp_get, next_done, unlinked]
          rfl
        rw [wp, removed] at failed
        cases failed
      | ok u =>
        obtain ⟨loc, located, _⟩ := unlink_eq_ok unlinked
        exact ⟨t, loc, located⟩
  obtain ⟨u, loc, located⟩ := located
  obtain ⟨n, _, _, last, _⟩ := locate_eq_ok.mp located
  rw [EndsInName, last]

/-- A path that ends in a name. -/
theorem removeAll_locate_iff (t : FileTree ν) (path : FileTree.Path ν) {loc : Loc ν} (found : t.locate path = .ok loc)
    (there : (t.lookup loc).isSome = true) :
    (∃ bound, ∀ depth ≥ bound, ∃ t', removeAll depth path t = (.done (.ok ()), t') ∧ Without (Named t loc) t t') ↔
      (t.stat path = .ok .dir → t.lookup loc = some .dir) ∧
        (t.lookup loc = some .dir → ∀ seen ∈ t.trail path, ¬ Inside loc seen) := by
  obtain ⟨above, parent, trail, n, rfl, leads, dir, rfl⟩ := locate_iff.mp found
  change (∃ bound, ∀ depth ≥ bound, ∃ t', removeAll depth (fname above n) t = _ ∧ _) ↔
    (t.stat (fname above n) = _ → _) ∧ (_ → ∀ seen ∈ t.trail (fname above n), _)
  have passed : t.trail (fname above n) = trail := leads.trail_child n
  rw [passed]
  constructor
  · rintro ⟨bound, removes⟩
    obtain ⟨t', removed, _⟩ := removes bound le_rfl
    have real (leadsTo : t.stat (fname above n) = .ok .dir) :
        t.lookup (parent ++ [n]) = some .dir ∧ ∀ seen ∈ trail, ¬ Inside (parent ++ [n]) seen := by
      rw [removeAll_eq, if_pos leadsTo] at removed
      have last := rmtree_last bound (fname above n) t
      rw [wp, removed] at last
      obtain ⟨u, contains, final⟩ := last rfl
      exact removed_outside leads contains final
    refine ⟨fun leadsTo => (real leadsTo).1, fun itself => (real ?_).2⟩
    exact (leads.child dir itself).stat itself
  · rintro ⟨itself, outside⟩
    obtain ⟨bound, deep⟩ := exists_depth t
    refine ⟨bound, fun depth enough => ?_⟩
    have removes : wp (removeAll depth (fname above n))
        (fun o t' => o = .done (.ok ()) ∧ Without (parent ++ [n] <+: ·) t t') t := by
      rw [wp, removeAll_eq]
      split
      · rename_i leadsTo
        have real := itself leadsTo
        refine rmtree_without depth leads real (outside real) fun below there => ?_
        have bounded := deep _ there
        rw [List.length_append] at bounded
        omega
      · rename_i other
        exact unlink_without found there fun real => other ((leads.child dir real).stat real)
    exact ⟨_, Prod.ext removes.1 rfl, removes.2.named⟩

/-- `remove_all` removes the entry that an existing path names, and what is below it, if and only if the path ends in a
name, that is no link to a directory, and not a directory through which the path leads. -/
theorem removeAll_iff (t : FileTree ν) (path : FileTree.Path ν) {loc : Loc ν} (found : entryOf t path = .ok loc)
    (there : (t.lookup loc).isSome = true) :
    (∃ bound, ∀ depth ≥ bound, ∃ t', removeAll depth path t = (.done (.ok ()), t') ∧ Without (Named t loc) t t') ↔
      EndsInName path = true ∧ (t.stat path = .ok .dir → t.lookup loc = some .dir) ∧
        (t.lookup loc = some .dir → ∀ seen ∈ t.trail path, ¬ Inside loc seen) := by
  by_cases named : EndsInName path = true
  · rw [entryOf, if_pos named] at found
    rw [removeAll_locate_iff t path found there]
    exact ⟨fun holds => ⟨named, holds⟩, And.right⟩
  · constructor
    · rintro ⟨bound, removes⟩
      obtain ⟨t', removed, _⟩ := removes bound le_rfl
      exact absurd (removeAll_endsInName removed) named
    · exact fun holds => absurd holds.1 named

/-- A directory with a file, a link to it, and a tree in which there is another link to it. -/
def linked : FileTree String where
  entries := List.toAList [⟨["data"], .dir⟩, ⟨["data", "file"], .file⟩, ⟨["link"], .link ⟨true, [.name "data"]⟩⟩,
    ⟨["tree"], .dir⟩, ⟨["tree", "inner"], .dir⟩, ⟨["tree", "inner", "file"], .file⟩,
    ⟨["tree", "link"], .link ⟨false, [.up, .name "data"]⟩⟩]
  cwd := []
  maxLinks := 40
  rooted loc member := by
    rw [AList.mem_keys] at member
    revert loc
    decide +kernel

theorem linked_removed : ∃ bound, ∀ depth ≥ bound, ∃ t',
    removeAll depth ⟨false, [.name "tree"]⟩ linked = (.done (.ok ()), t') ∧ Without (Named linked ["tree"]) linked t' :=
  (removeAll_iff linked ⟨false, [.name "tree"]⟩ (by decide +kernel) (by decide +kernel)).mpr
    ⟨rfl, by decide +kernel, by decide +kernel⟩

/-- The link is not removed, but the file in the directory it points to is. A tree that is named as `tree/.` is emptied
and not removed. -/
theorem link_emptied :
    linked.locate ⟨false, [.name "link"]⟩ = .ok ["link"] ∧
      (removeAll 9 ⟨false, [.name "link"]⟩ linked).1 = .done (.error .notADirectory) ∧
      (removeAll 9 ⟨false, [.name "link"]⟩ linked).2.lookup ["link"] = some (.link ⟨true, [.name "data"]⟩) ∧
      linked.lookup ["data", "file"] = some .file ∧
      (removeAll 9 ⟨false, [.name "link"]⟩ linked).2.lookup ["data", "file"] = none ∧
      entryOf linked ⟨false, [.name "tree", .here]⟩ = .ok ["tree"] ∧
      (removeAll 9 ⟨false, [.name "tree", .here]⟩ linked).1 = .done (.error .invalidArgument) ∧
      (removeAll 9 ⟨false, [.name "tree", .here]⟩ linked).2.lookup ["tree", "inner"] = none ∧
      (removeAll 9 ⟨false, [.name "tree", .here]⟩ linked).2.lookup ["tree"] = some .dir := by
  decide +kernel

end UniEvent.Fs
