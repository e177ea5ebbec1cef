import UniEvent.Model.Queue

/-! # One request for many file operations

`Fs::Request` with its asynchronous operations, after `Fs.cc` and `Work.cc`. The operations come from a few macros; they
share the members of the request, where the thread pool leaves the result and the error, and from where the callback
gets them. What the waiting calls return is up to the operating system. The types of a directory entry, of a `FStat` and
of a `FsInfo` are parameters: the request only moves such values.
-/

namespace UniEvent.FsRequest

/-- The operations of `Fs::Request`; a name with `Fd` is the overload that takes the descriptor of the request. -/
inductive Op where
  | mkdir | rmdir | remove | mkpath | scandir | removeAll
  | open | close | stat | statFd | lstat | statfs | exists | isfile | isdir | access | unlink
  | sync | datasync | truncate | truncateFd | chmod | chmodFd | touch | utime | utimeFd | lutime
  | chown | lchown | chownFd | rename | sendfile | link | symlink | readlink | realpath | copyfile
  | mkdtemp | mkstemp | read | write
deriving DecidableEq, Repr

/-- The macros, with the three uses of `UEFS_ASYNC` itself and that of `sendfile`. -/
inductive Kind where
  | void | stat | bool | str | pathFd | dirEntries | fd | fsInfo | size
deriving DecidableEq, Repr

/-- The macro that makes an operation. -/
def Op.kind : Op → Kind
  | .scandir => .dirEntries
  | .open => .fd
  | .stat | .statFd | .lstat => .stat
  | .statfs => .fsInfo
  | .exists | .isfile | .isdir => .bool
  | .sendfile => .size
  | .readlink | .realpath | .mkdtemp | .read => .str
  | .mkstemp => .pathFd
  | .mkdir | .rmdir | .remove | .mkpath | .removeAll | .close | .access | .unlink | .sync | .datasync
  | .truncate | .truncateFd | .chmod | .chmodFd | .touch | .utime | .utimeFd | .lutime | .chown | .lchown | .chownFd
  | .rename | .link | .symlink | .copyfile | .write => .void

section Values

variable (δ τ φ : Type)

/-- What the callback gets next to the error. -/
def Kind.Value : Kind → Type
  | .void => Unit
  | .stat => τ
  | .bool => Bool
  | .str => String
  | .pathFd => String × ℕ
  | .dirEntries => List δ
  | .fd => ℕ
  | .fsInfo => φ
  | .size => ℕ

/-- What the waiting call returns; `exists`, `isfile` and `isdir` cannot fail. -/
def Kind.Ret : Kind → Type
  | .bool => Bool
  | .void => Except Err (Value δ τ φ .void)
  | .stat => Except Err (Value δ τ φ .stat)
  | .str => Except Err (Value δ τ φ .str)
  | .pathFd => Except Err (Value δ τ φ .pathFd)
  | .dirEntries => Except Err (Value δ τ φ .dirEntries)
  | .fd => Except Err (Value δ τ φ .fd)
  | .fsInfo => Except Err (Value δ τ φ .fsInfo)
  | .size => Except Err (Value δ τ φ .size)

/-- The returned value as a value or an error. -/
def result : (kind : Kind) → kind.Ret δ τ φ → Except Err (kind.Value δ τ φ)
  | .bool, ret => .ok ret
  | .void, ret | .stat, ret | .str, ret | .pathFd, ret | .dirEntries, ret | .fd, ret | .fsInfo, ret | .size, ret => ret

/-- The members of `Fs::Request`. -/
structure Request where
  bool : Bool
  fd : ℕ
  err : Option Err
  dirEntries : List δ
  stat : τ
  fsInfo : φ
  size : ℕ
  string : String

end Values

variable {δ τ φ : Type}

namespace Request

/-- `save_result_code` -/
def save (r : Request δ τ φ) : (kind : Kind) → kind.Value δ τ φ → Request δ τ φ
  | .void, _ => r
  | .stat, value => { r with stat := value }
  | .bool, value => { r with bool := value }
  | .str, value => { r with string := value }
  | .pathFd, value => { r with string := value.1, fd := value.2 }
  | .dirEntries, value => { r with dirEntries := value }
  | .fd, value => { r with fd := value }
  | .fsInfo, value => { r with fsInfo := value }
  | .size, value => { r with size := value }

/-- The member, or the two, that `cb_code` gives to the callback. -/
def given (r : Request δ τ φ) : (kind : Kind) → kind.Value δ τ φ
  | .void => ()
  | .stat => r.stat
  | .bool => r.bool
  | .str => r.string
  | .pathFd => (r.string, r.fd)
  | .dirEntries => r.dirEntries
  | .fd => r.fd
  | .fsInfo => r.fsInfo
  | .size => r.size

/-- `work_cb` once its call has returned: the error is written only by a call that fails. -/
def work (r : Request δ τ φ) (kind : Kind) (ret : kind.Ret δ τ φ) : Request δ τ φ :=
  match result δ τ φ kind ret with
  | .ok value => r.save kind value
  | .error err => { r with err := some err }

/-- `after_work_cb` before it calls the callback. -/
def arrive (r : Request δ τ φ) (err : Option Err) : Request δ τ φ :=
  if err ≠ none then { r with err := err } else r

/-- `after_work_cb` after the callback; the exception of a callback skips it. -/
def clear (r : Request δ τ φ) (threw : Bool) : Request δ τ φ :=
  if threw then r else { r with err := none, dirEntries := [], string := "" }

end Request

/-- What a callback was called with; `ret` is what the call of its own operation returned, nothing if that was
canceled, and `threw` tells how the callback ended. -/
structure Report (δ τ φ : Type) where
  op : Op
  ret : Option (op.kind.Ret δ τ φ)
  err : Option Err
  value : op.kind.Value δ τ φ
  threw : Bool

/-- Where the operation of a request is. -/
inductive Phase (δ τ φ : Type) where
  /-- not `_active` -/
  | idle
  | queued (op : Op)
  /-- taken by a thread, so that `uv_cancel` fails -/
  | worked (op : Op) (ret : op.kind.Ret δ τ φ)

/-- A request, with the reports it has made so far, the newest first. -/
structure State (δ τ φ : Type) where
  req : Request δ τ φ
  phase : Phase δ τ φ
  reports : List (Report δ τ φ)

/-- What the user, the thread pool and the loop do; `threw` is for the callback that runs during the step. -/
inductive Move (δ τ φ : Type) where
  | setFd (fd : ℕ)
  | issue (op : Op)
  /-- The thread pool makes the call; `os` has the answers, by operation and by the descriptor of the request. -/
  | work (os : (op : Op) → ℕ → op.kind.Ret δ τ φ)
  | afterWork (threw : Bool)
  | cancel (threw : Bool)

namespace State

/-- A new request. -/
def fresh [Inhabited τ] [Inhabited φ] : State δ τ φ where
  req := ⟨false, 0, none, [], default, default, 0, ""⟩
  phase := .idle
  reports := []

/-- `Work::handle_after_work` with the `after_work_cb` of `op` -/
def handleAfterWork (s : State δ τ φ) (op : Op) (ret : Option (op.kind.Ret δ τ φ)) (err : Option Err) (threw : Bool) :
    State δ τ φ :=
  let r := s.req.arrive err
  { req := r.clear threw, phase := .idle, reports := ⟨op, ret, r.err, r.given op.kind, threw⟩ :: s.reports }

/-- One step. An operation is issued, and a descriptor set, once the previous operation is over. -/
def step (s : State δ τ φ) : Move δ τ φ → Option (State δ τ φ)
  | .setFd fd =>
    match s.phase with
    | .idle => some { s with req := { s.req with fd := fd } }
    | _ => none
  | .issue op =>
    match s.phase with
    | .idle => some { s with phase := .queued op }
    | _ => none
  | .work os =>
    match s.phase with
    | .queued op =>
      let ret := os op s.req.fd
      some { s with req := s.req.work op.kind ret, phase := .worked op ret }
    | _ => none
  | .afterWork threw =>
    match s.phase with
    | .worked op ret => some (s.handleAfterWork op (some ret) none threw)
    | _ => none
  | .cancel threw =>
    match s.phase with
    | .queued op => some (s.handleAfterWork op none (some .canceled) threw)
    -- `Work::cancel` has nothing to do, or `destroy` refuses
    | .idle | .worked _ _ => some s

/-- A run of steps. -/
def run (s : State δ τ φ) (moves : List (Move δ τ φ)) : Option (State δ τ φ) := moves.foldlM step s

end State

end UniEvent.FsRequest
