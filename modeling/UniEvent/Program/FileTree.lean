import Mathlib.Data.List.AList
import Mathlib.Data.List.Induction
import Mathlib.Tactic.Common

/-! # File trees with symbolic links

A tree of directories, files and symbolic links, as the calls of the kernel see it. An entry is known by its location,
the names that lead to it from the root through real directories; the root itself is always a directory. A path is a
list of components and is walked from the root or from the working directory. Links are followed on the way, and at its
end by the calls that ask for what a path leads to; calls that change an entry take the last component as it is.

`walk` also returns the locations it looked at. They are ghost: what they say is what a walk depends on.
-/

namespace Program

/-- The error codes of the calls. -/
inductive Errc where
  | noSuchFileOrDirectory
  | notADirectory
  | isADirectory
  | fileExists
  | directoryNotEmpty
  | tooManySymbolicLinkLevels
  | invalidArgument
deriving DecidableEq, Repr

namespace FileTree

inductive Comp (ν : Type) where
  /-- `.` -/
  | here
  /-- `..` -/
  | up
  | name (name : ν)
deriving DecidableEq, Repr

structure Path (ν : Type) where
  absolute : Bool
  comps : List (Comp ν)
deriving DecidableEq, Repr

/-- An entry of a directory, by its own type. -/
inductive Entry (ν : Type) where
  | file
  | link (target : Path ν)
  | dir
deriving DecidableEq, Repr

/-- The names from the root. -/
abbrev Loc (ν : Type) := List ν

end FileTree

open FileTree

variable {ν : Type} [DecidableEq ν]

def FileTree.find (entries : AList fun _ : Loc ν => Entry ν) (loc : Loc ν) : Option (Entry ν) :=
  if loc = [] then some .dir else entries.lookup loc

/-- What there is, the working directory, and how many links a walk may follow. -/
structure FileTree (ν : Type) [DecidableEq ν] where
  entries : AList fun _ : Loc ν => Entry ν
  cwd : Loc ν
  maxLinks : ℕ
  /-- Each entry has a name, and stands in a directory. -/
  rooted : ∀ loc ∈ entries, loc ≠ [] ∧ find entries loc.dropLast = some .dir

namespace FileTree

variable (t : FileTree ν)

def lookup (loc : Loc ν) : Option (Entry ν) := find t.entries loc

/-- Where a path starts, if it is not absolute in `base`. -/
def Path.start (path : Path ν) (base : Loc ν) : Loc ν := if path.absolute = true then [] else base

/-! ### Walks -/

/-- The end of a walk from the directory `loc`, and the locations that were looked at; `follow` goes on at a link. -/
def walkWith (follow : Loc ν → List (Comp ν) → Except Errc (Loc ν × List (Loc ν))) :
    Loc ν → List (Comp ν) → Except Errc (Loc ν × List (Loc ν))
  | loc, [] => .ok (loc, [])
  | loc, .here :: rest => walkWith follow loc rest
  | loc, .up :: rest => walkWith follow loc.dropLast rest
  | loc, .name n :: rest =>
    let seen (found : Except Errc (Loc ν × List (Loc ν))) := found.map fun end' => (end'.1, (loc ++ [n]) :: end'.2)
    match t.lookup (loc ++ [n]) with
    | none => .error .noSuchFileOrDirectory
    | some .dir => seen (walkWith follow (loc ++ [n]) rest)
    | some .file => if rest = [] then seen (.ok (loc ++ [n], [])) else .error .notADirectory
    | some (.link target) => seen (follow (target.start loc) (target.comps ++ rest))

def walk : ℕ → Loc ν → List (Comp ν) → Except Errc (Loc ν × List (Loc ν))
  | 0 => t.walkWith fun _ _ => .error .tooManySymbolicLinkLevels
  | links + 1 => t.walkWith (walk links)

/-- What a path leads to, with links followed to the end. -/
def resolve (path : Path ν) : Except Errc (Loc ν × List (Loc ν)) :=
  if t.lookup (path.start t.cwd) = some .dir then
    (t.walk t.maxLinks (path.start t.cwd) path.comps).map fun end' => (end'.1, path.start t.cwd :: end'.2)
  else .error .noSuchFileOrDirectory

/-- The entry that a path names, with links followed up to its last component only. -/
def locate (path : Path ν) : Except Errc (Loc ν) :=
  match path.comps.getLast? with
  | some (.name n) => do
    let parent ← t.resolve { path with comps := path.comps.dropLast }
    if t.lookup parent.1 = some .dir then .ok (parent.1 ++ [n]) else .error .notADirectory
  | _ => .error .invalidArgument

/-- The locations that the path passes before its last component. -/
def trail (path : Path ν) : List (Loc ν) :=
  match t.resolve { path with comps := path.comps.dropLast } with
  | .ok end' => end'.2
  | .error _ => []

/-! ### Calls -/

def stat (path : Path ν) : Except Errc (Entry ν) := do
  let end' ← t.resolve path
  match t.lookup end'.1 with
  | some entry => .ok entry
  | none => .error .noSuchFileOrDirectory

/-- The names in a directory, with the types of the entries themselves. -/
def children (loc : Loc ν) : List (ν × Entry ν) :=
  t.entries.entries.filterMap fun e => if e.1.dropLast = loc then e.1.getLast?.map fun n => (n, e.2) else none

def scandir (path : Path ν) : Except Errc (List (ν × Entry ν)) := do
  let end' ← t.resolve path
  if t.lookup end'.1 = some .dir then .ok (t.children end'.1) else .error .notADirectory

/-- Nothing stands in `loc`. -/
def Leaf (loc : Loc ν) : Prop := ∀ other ∈ t.entries.keys, other.dropLast ≠ loc

instance (loc : Loc ν) : Decidable (t.Leaf loc) := inferInstanceAs (Decidable (∀ other ∈ t.entries.keys, _))

variable {t} {loc : Loc ν} {entry : Entry ν}

theorem mem_entries (named : loc ≠ []) (found : t.lookup loc = some entry) : loc ∈ t.entries := by
  rw [lookup, find, if_neg named] at found
  exact AList.lookup_isSome.mp (by rw [found]; rfl)

/-- Only directories have something in them. -/
theorem leaf_of_not_dir (other : t.lookup loc ≠ some .dir) : t.Leaf loc := by
  rintro inside member rfl
  exact other (t.rooted inside member).2

def erase (t : FileTree ν) (loc : Loc ν) (leaf : t.Leaf loc) : FileTree ν where
  entries := t.entries.erase loc
  cwd := t.cwd
  maxLinks := t.maxLinks
  rooted other member := by
    have old := AList.mem_erase.mp member
    obtain ⟨named, parent⟩ := t.rooted other old.2
    refine ⟨named, ?_⟩
    rw [find] at parent ⊢
    split
    · rfl
    · rename_i inside
      rw [if_neg inside] at parent
      rw [AList.lookup_erase_ne (leaf other old.2)]
      exact parent

def insert (t : FileTree ν) (loc : Loc ν) (entry : Entry ν) (named : loc ≠ [])
    (parent : t.lookup loc.dropLast = some .dir)
    (absent : t.lookup loc = none) : FileTree ν where
  entries := t.entries.insert loc entry
  cwd := t.cwd
  maxLinks := t.maxLinks
  rooted other member := by
    have kept {above : Loc ν} (dir : t.lookup above = some .dir) :
        find (t.entries.insert loc entry) above = some .dir := by
      have different : above ≠ loc := fun same => by rw [same, absent] at dir; cases dir
      rw [lookup, find] at dir
      rw [find]
      split
      · rfl
      · rename_i inside
        rw [if_neg inside] at dir
        rw [AList.lookup_insert_ne different]
        exact dir
    rcases (AList.mem_insert _).mp member with rfl | old
    · exact ⟨named, kept parent⟩
    · exact ⟨(t.rooted other old).1, kept (t.rooted other old).2⟩

/-- A path that names an entry ends in a name, and the rest of it leads to a directory. -/
theorem locate_eq_ok {path : Path ν} : t.locate path = .ok loc ↔
    ∃ n parent trail, path.comps.getLast? = some (.name n) ∧
      t.resolve { path with comps := path.comps.dropLast } = .ok (parent, trail) ∧ t.lookup parent = some .dir ∧
      loc = parent ++ [n] := by
  constructor
  · intro found
    rw [locate] at found
    split at found
    · rename_i n last
      cases resolved : t.resolve { path with comps := path.comps.dropLast } with
      | error err =>
        rw [resolved] at found
        cases found
      | ok parent =>
        rw [resolved] at found
        change (if t.lookup parent.1 = some .dir then Except.ok (parent.1 ++ [n]) else .error Errc.notADirectory)
          = _ at found
        split at found
        · rename_i dir
          exact ⟨n, parent.1, parent.2, last, rfl, dir, (Except.ok.inj found).symm⟩
        · cases found
    · cases found
  · rintro ⟨n, parent, trail, last, resolved, dir, rfl⟩
    rw [locate, last]
    change (t.resolve _ >>= fun parent => _) = _
    rw [resolved]
    exact if_pos dir

theorem locate_ok {path : Path ν} (found : t.locate path = .ok loc) : loc ≠ [] ∧ t.lookup loc.dropLast = some .dir := by
  obtain ⟨n, parent, trail, _, _, dir, rfl⟩ := locate_eq_ok.mp found
  exact ⟨by simp, by rw [List.dropLast_concat]; exact dir⟩

variable (t)

/-- Removes a file, or a link itself. -/
def unlink (path : Path ν) : Except Errc (FileTree ν) := do
  let loc ← t.locate path
  if t.lookup loc = none then .error .noSuchFileOrDirectory
  else if kind : t.lookup loc = some .dir then .error .isADirectory
  else .ok (t.erase loc (leaf_of_not_dir kind))

/-- Removes an empty directory. -/
def rmdir (path : Path ν) : Except Errc (FileTree ν) := do
  let loc ← t.locate path
  if t.lookup loc = none then .error .noSuchFileOrDirectory
  else if t.lookup loc ≠ some .dir then .error .notADirectory
  else if leaf : t.Leaf loc then .ok (t.erase loc leaf)
  else .error .directoryNotEmpty

/-- Makes an empty directory. The root, `.` and `..` are always there. -/
def mkdir (path : Path ν) : Except Errc (FileTree ν) := do
  let parent ← t.resolve { path with comps := path.comps.dropLast }
  if dir : t.lookup parent.1 = some .dir then
    match path.comps.getLast? with
    | some (.name n) =>
      if absent : t.lookup (parent.1 ++ [n]) = none then
        .ok (t.insert (parent.1 ++ [n]) .dir (List.concat_ne_nil n parent.1)
          (by rw [List.dropLast_concat]; exact dir) absent)
      else .error .fileExists
    | _ => .error .fileExists
  else .error .notADirectory

variable {t} {t' : FileTree ν} {other : Loc ν} {n : ν}

/-! ### What there is -/

theorem erase_lookup_self (leaf : t.Leaf loc) (named : loc ≠ []) : (t.erase loc leaf).lookup loc = none := by
  rw [lookup, find, if_neg named]
  exact AList.lookup_erase ..

theorem erase_lookup_of_ne (leaf : t.Leaf loc) (different : other ≠ loc) :
    (t.erase loc leaf).lookup other = t.lookup other := by
  rw [lookup, lookup, find, find]
  split
  · rfl
  · exact AList.lookup_erase_ne different

theorem insert_lookup {named : loc ≠ []} {parent : t.lookup loc.dropLast = some .dir} {absent : t.lookup loc = none} :
    (t.insert loc entry named parent absent).lookup other = if other = loc then some entry else t.lookup other := by
  rw [lookup, lookup, find, find]
  by_cases same : other = loc
  · rw [if_pos same, if_neg (same ▸ named), same]
    exact AList.lookup_insert _
  · rw [if_neg same]
    split
    · rfl
    · exact AList.lookup_insert_ne same

theorem parent_dir (found : (t.lookup (loc ++ [n])).isSome = true) : t.lookup loc = some .dir := by
  obtain ⟨entry, found⟩ := Option.isSome_iff_exists.mp found
  have parent := (t.rooted _ (mem_entries (by simp) found)).2
  rw [List.dropLast_concat] at parent
  exact parent

/-- What stands below a location stands in directories up to there. -/
theorem above_dir {loc below : Loc ν} (found : (t.lookup (loc ++ below)).isSome = true) (strict : below ≠ []) :
    t.lookup loc = some .dir := by
  induction below using List.reverseRecOn with
  | nil => exact absurd rfl strict
  | append_singleton below n ih =>
    rw [← List.append_assoc] at found
    have parent := parent_dir found
    by_cases first : below = []
    · rw [first, List.append_nil] at parent
      exact parent
    · exact ih (by rw [parent]; rfl) first

theorem mem_children : (n, entry) ∈ t.children loc ↔ t.lookup (loc ++ [n]) = some entry := by
  rw [lookup, find, if_neg (by simp), children, List.mem_filterMap]
  constructor
  · rintro ⟨⟨other, kind⟩, member, found⟩
    split at found
    · rename_i inside
      obtain ⟨last, final, same⟩ := Option.map_eq_some_iff.mp found
      cases same
      rw [← inside, List.dropLast_append_getLast? n final]
      exact AList.mem_lookup_iff.mpr member
    · cases found
  · intro found
    refine ⟨⟨loc ++ [n], entry⟩, AList.mem_lookup_iff.mp found, ?_⟩
    simp

/-- The last name of what stands in `loc`. -/
private theorem last_of_inside (last : n ∈ if other.dropLast = loc then other.getLast? else none) :
    other = loc ++ [n] := by
  split at last
  · rename_i inside
    rw [← inside]
    exact (List.dropLast_append_getLast? n last).symm
  · cases last

theorem children_nodup (loc : Loc ν) : ((t.children loc).map Prod.fst).Nodup := by
  have names : (t.children loc).map Prod.fst =
      t.entries.keys.filterMap fun other => if other.dropLast = loc then other.getLast? else none := by
    rw [children, AList.keys, List.keys, List.map_filterMap, List.filterMap_map]
    congr 1
    funext e
    change Option.map Prod.fst _ = if e.1.dropLast = loc then e.1.getLast? else none
    split
    · rw [Option.map_map]
      exact congrFun Option.map_id _
    · rfl
  rw [names]
  refine t.entries.keys_nodup.filterMap fun other other' n first second => ?_
  rw [last_of_inside first, last_of_inside second]

end FileTree

end Program
