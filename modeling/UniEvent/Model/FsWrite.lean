import Mathlib.Data.Int.Notation
import UniEvent.Model.Queue

/-! # Writing to a file

The three layers that a write passes, after `Fs.cc` and `streamer/File.cc`: the call that waits, the request that makes
this call in the thread pool, and the chunk that `FileOutput` acknowledges to the streamer. What the operating system
makes of a write is an oracle; it gets the number of bytes asked for, and gives a negative error or the number written.
-/

namespace UniEvent.FsWrite

abbrev Bytes := List UInt8

/-- The answers to the writes, by the number of bytes asked for; never more than that. -/
structure Oracle where
  answer : ℕ → ℤ
  bounded : ∀ total, answer total ≤ total

/-- What the operating system has written. -/
structure Written where
  fd : ℕ
  offset : ℤ
  bytes : Bytes
deriving DecidableEq, Repr

/-- `uv_fs_write`: `uvr.result`, and what was written -/
def uvFsWrite (os : Oracle) (fd : ℕ) (bufs : List Bytes) (offset : ℤ) : ℤ × Option Written :=
  let result := os.answer bufs.flatten.length
  if result < 0 then (result, none) else (result, some ⟨fd, offset, bufs.flatten.take result.toNat⟩)

/-- `uvx_error` -/
def uvxError (result : ℤ) : Err := .other result.natAbs

/-- `Fs::_write` -/
def write (os : Oracle) (fd : ℕ) (bufs : List Bytes) (offset : ℤ) : Except Err Unit × Option Written :=
  let (result, written) := uvFsWrite os fd bufs offset
  if result < 0 then (.error (uvxError result), written) else (.ok (), written)

/-- The members of `Fs::Request` that a write uses. -/
structure Request where
  fd : ℕ
  err : Option Err := none
deriving DecidableEq, Repr

namespace Request

/-- The part of `Fs::Request::_write` that runs in the thread pool. -/
def work (os : Oracle) (bufs : List Bytes) (offset : ℤ) (r : Request) : Request × Option Written :=
  match FsWrite.write os r.fd bufs offset with
  | (.ok (), written) => (r, written)
  | (.error err, written) => ({ r with err := some err }, written)

/-- The part that runs in the loop: what the callback gets. -/
def afterWork (err : Option Err) (r : Request) : Option Err × Request :=
  let r := if err ≠ none then { r with err := err } else r
  (r.err, { r with err := none })

/-- A request that is performed; `err` is what the loop says about it. -/
def write (os : Oracle) (bufs : List Bytes) (offset : ℤ) (err : Option Err) (r : Request) :
    Option Err × Option Written :=
  let (r, written) := r.work os bufs offset
  ((r.afterWork err).1, written)

end Request

/-- `FileOutput::do_write`: what the chunk is acknowledged with -/
def acknowledge (os : Oracle) (fd : ℕ) (front : Bytes) (err : Option Err) : Option Err × Option Written :=
  Request.write os [front] (-1) err { fd := fd }

end UniEvent.FsWrite
