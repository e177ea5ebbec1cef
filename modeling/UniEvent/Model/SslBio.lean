import Mathlib.Algebra.Ring.Nat
import Mathlib.Data.Int.Notation
import Mathlib.Data.Nat.Notation

/-! # The memory BIO of SSL

`bio_write`, `bio_read`, `bio_gets` and `bio_ctrl`, after `SslBio.cc`, with `SslBio::set_buf` and `steal_buf`, for
OpenSSL from 1.1.0 on. The strings are their bytes. What `capacity()` returns is an input of a write, and the string
that the allocator returns has no bytes yet, whatever its capacity. Lengths become `int` by reduction.
-/

namespace UniEvent.SslBio

/-- The value of `int(length)`. -/
def toInt (length : ℕ) : ℤ := (length : ℤ).bmod (2 ^ 32)

def newline : UInt8 := 10

structure Bio where
  /-- `membuf_t::buf` -/
  buf : List UInt8 := []
  /-- The flags of `BIO_set_retry_read`. -/
  retry : Bool := false
deriving DecidableEq, Repr

/-- What a call returns and what it copies out. -/
structure Result where
  ret : ℤ
  out : List UInt8 := []
deriving DecidableEq, Repr

namespace Bio

variable (bio : Bio)

/-- `buf`, moved to a new string when there is no room for `inl` bytes more. -/
def reserve (capacity inl : ℕ) : List UInt8 :=
  if capacity < bio.buf.length + inl then
    let newbuf : List UInt8 := []
    if bio.buf.length ≠ 0 then newbuf ++ bio.buf else newbuf
  else bio.buf

def bioWrite (capacity : ℕ) (bytes : List UInt8) : Result × Bio :=
  ({ ret := bytes.length }, { buf := bio.reserve capacity bytes.length ++ bytes, retry := false })

/-- The local variable `outl` of `bio_read`. -/
def outl (n : ℤ) : ℤ := if toInt bio.buf.length < n then toInt bio.buf.length else n

def bioRead (n : ℤ) : Result × Bio :=
  if 0 < bio.outl n then
    ({ ret := bio.outl n, out := bio.buf.take (bio.outl n).toNat },
      { buf := bio.buf.drop (bio.outl n).toNat, retry := false })
  else if bio.buf = [] then ({ ret := -1 }, { bio with retry := true })
  else ({ ret := bio.outl n }, { bio with retry := false })

end Bio

/-- The loop of `bio_gets`: how many of the first `j` bytes there are up to the first newline. -/
def lineLength : ℕ → List UInt8 → ℕ
  | 0, _ => 0
  | _, [] => 0
  | j + 1, b :: p => if b = newline then 1 else lineLength j p + 1

namespace Bio

variable (bio : Bio)

/-- The local variable `j` of `bio_gets`. -/
def most (size : ℤ) : ℤ := if toInt bio.buf.length > size - 1 then size - 1 else toInt bio.buf.length

/-- What is copied out is followed by a zero byte, which is not among the bytes taken. -/
def bioGets (size : ℤ) : Result × Bio :=
  if bio.most size ≤ 0 then ({ ret := 0 }, { bio with retry := false })
  else bio.bioRead (lineLength (bio.most size).toNat bio.buf)

def setBuf (bytes : List UInt8) : Bio := { bio with buf := bio.buf ++ bytes }

def stealBuf : List UInt8 × Bio := (bio.buf, { bio with buf := [] })

end Bio

/-- The commands of `bio_ctrl` that have to do with the buffer. -/
inductive Ctrl where
  | reset
  | eof
  | info
  | wpending
  | pending
  | flush
deriving DecidableEq, Repr

def Bio.bioCtrl (bio : Bio) : Ctrl → ℕ × Bio
  | .reset => (1, { bio with buf := [] })
  | .eof => (if bio.buf.length = 0 then 1 else 0, bio)
  | .info => (bio.buf.length, bio)
  | .wpending => (0, bio)
  | .pending => (bio.buf.length, bio)
  | .flush => (1, bio)

/-! ### Runs -/

inductive Op where
  | write (capacity : ℕ) (bytes : List UInt8)
  | setBuf (bytes : List UInt8)
  | read (n : ℤ)
  | gets (size : ℤ)
  | steal
deriving DecidableEq, Repr

/-- The BIO, and all bytes put in and taken out so far. -/
structure State where
  bio : Bio := {}
  put : List UInt8 := []
  taken : List UInt8 := []
deriving DecidableEq, Repr

namespace State

variable (s : State)

def took (call : Result × Bio) : State := { s with bio := call.2, taken := s.taken ++ call.1.out }

def step : Op → State
  | .write capacity bytes => { s with bio := (s.bio.bioWrite capacity bytes).2, put := s.put ++ bytes }
  | .setBuf bytes => { s with bio := s.bio.setBuf bytes, put := s.put ++ bytes }
  | .read n => s.took (s.bio.bioRead n)
  | .gets size => s.took (s.bio.bioGets size)
  | .steal => { s with bio := s.bio.stealBuf.2, taken := s.taken ++ s.bio.stealBuf.1 }

end State

def run (ops : List Op) : State := ops.foldl State.step {}

end UniEvent.SslBio
