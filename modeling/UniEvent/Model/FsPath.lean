import UniEvent.Program.Exec
import UniEvent.Program.FileTree

/-! # Functions on paths

`Fs::remove_all` and `Fs::mkpath` of `Fs.cc`, over the calls of the kernel they make. A call that fails has an error
code and changes nothing.
-/

namespace UniEvent.Fs

open Program Program.Exec FileTree

section
variable {ν : Type} [DecidableEq ν]

/-- A call that changes the tree unless it fails. -/
def call (f : FileTree ν → Except Errc (FileTree ν)) : Exec (FileTree ν) (Except Errc Unit) := do
  let t ← get
  match f t with
  | .ok t' => do
    modify fun _ => t'
    pure (.ok ())
  | .error err => pure (.error err)

def isdir (path : Path ν) : Exec (FileTree ν) Bool := do
  let t ← get
  pure (decide (t.stat path = .ok .dir))

/-- `path + UE_SLASH + name` -/
def fname (path : Path ν) (name : ν) : Path ν := { path with comps := path.comps ++ [.name name] }

/-- What `_rmtree` does with an entry; `rmtree` is the recursive call. -/
def rmentry (rmtree : Path ν → Exec (FileTree ν) (Except Errc Unit)) (path : Path ν) (entry : ν × Entry ν) :
    Exec (FileTree ν) (Except Errc Unit) :=
  if entry.2 = .dir then rmtree (fname path entry.1) else call fun t => t.unlink (fname path entry.1)

/-- The loop of `_rmtree` over the entries of a directory. -/
def rmentries (rmtree : Path ν → Exec (FileTree ν) (Except Errc Unit)) (path : Path ν) :
    List (ν × Entry ν) → Exec (FileTree ν) (Except Errc Unit)
  | [] => pure (.ok ())
  | entry :: entries => do
    let ret ← rmentry rmtree path entry
    match ret with
    | .ok () => rmentries rmtree path entries
    | .error err => pure (.error err)

/-- `_rmtree`, with recursion up to a given depth. -/
def rmtree : ℕ → Path ν → Exec (FileTree ν) (Except Errc Unit)
  | 0, _ => halt .exhausted
  | depth + 1, path => do
    let t ← get
    match t.scandir path with
    | .error err => pure (.error err)
    | .ok entries => do
      let ret ← rmentries (rmtree depth) path entries
      match ret with
      | .ok () => call fun t => t.rmdir path
      | .error err => pure (.error err)

def removeAll (depth : ℕ) (path : Path ν) : Exec (FileTree ν) (Except Errc Unit) := do
  let dir ← isdir path
  if dir = true then rmtree depth path else call fun t => t.unlink path

end

/-! ### mkpath -/

/-- The tree, and the paths passed to `mkdir` so far. -/
structure Disk where
  tree : FileTree (List Char)
  made : List (List Char)

/-- `path[pos] == '/' || path[pos] == '\\'` -/
def isSlash (c : Char) : Bool := c == '/' || c == '\\'

/-- `while (pos < len && p(path[pos])) ++pos;`, where `rest` is what follows `pos` -/
def advance (p : Char → Bool) : List Char → ℕ → ℕ
  | c :: rest, pos => if p c = true then advance p rest (pos + 1) else pos
  | [], pos => pos

def skipSlash : List Char → ℕ → ℕ := advance isSlash

def findPart : List Char → ℕ → ℕ := advance fun c => !isSlash c

/-- A component of a path. -/
def comp (part : List Char) : Comp (List Char) :=
  if part = ['.'] then .here else if part = ['.', '.'] then .up else .name part

def comps (text : List Char) : List (Comp (List Char)) :=
  ((text.splitOn '/').filter fun part => decide (part ≠ [])).map comp

/-- How the kernel reads a path: up to the first NUL, and only `/` separates. The empty text is no path. -/
def parse (path : List Char) : Except Errc (Path (List Char)) :=
  let text := path.takeWhile fun c => decide (c ≠ '\x00')
  if text = [] then .error .noSuchFileOrDirectory
  else .ok { absolute := decide (text.head? = some '/'), comps := comps text }

def mkdir (path : List Char) : Exec Disk (Except Errc Unit) := do
  modify fun disk => { disk with made := disk.made ++ [path] }
  let disk ← get
  match parse path >>= fun path => disk.tree.mkdir path with
  | .ok tree => do
    modify fun disk => { disk with tree }
    pure (.ok ())
  | .error err => pure (.error err)

/-- `isdir` of a text -/
def leadsToDir (t : FileTree (List Char)) (path : List Char) : Bool :=
  decide ((parse path >>= fun path => t.stat path) = .ok .dir)

/-- What `mkpath` makes of the result of `mkdir`; `rest` are the other rounds. -/
def goOn (curpath : List Char) (rest : Exec Disk (Except Errc Unit)) : Except Errc Unit → Exec Disk (Except Errc Unit)
  | .ok () => rest
  | .error err => do
    let disk ← get
    if err ≠ .fileExists then pure (.error err)
    else if leadsToDir disk.tree curpath = false then pure (.error .notADirectory)
    else rest

/-- The loop of `mkpath` from `pos`, with so many rounds at most. -/
def mkparts (path : List Char) : ℕ → ℕ → Exec Disk (Except Errc Unit)
  | 0, _ => halt .exhausted
  | rounds + 1, pos =>
    if pos < path.length then do
      let pos := findPart (path.drop pos) pos
      let curpath := path.take pos
      let ret ← mkdir curpath
      goOn curpath (mkparts path rounds (skipSlash (path.drop pos) pos)) ret
    else pure (.ok ())

def mkpath (rounds : ℕ) (path : List Char) : Exec Disk (Except Errc Unit) :=
  if path.length = 0 then pure (.ok ()) else mkparts path rounds (skipSlash path 0)

end UniEvent.Fs
