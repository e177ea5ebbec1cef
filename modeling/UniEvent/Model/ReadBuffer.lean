import Mathlib.Algebra.Ring.Nat
import Mathlib.Data.Nat.Basic

/-! # The buffers that the backend reads into

`uvx_buf_alloc` saves the string that owns a buffer at the end of that buffer and hands the part before it to libuv;
`uvx_detach_buf` takes the string back. After `backend-uv/src/inc.h`, `HandleImpl.h`, `Stream.cc` and `Udp.cc`.
Addresses and sizes are words of 64 bits, and so is their arithmetic.
-/

namespace UniEvent.ReadBuffer

/-- `sizeof(void*)` and `sizeof(string)` -/
structure Sizes where
  pointer : UInt64
  string : UInt64
  word : pointer.toNat ∣ 2 ^ 64
  aligned : pointer.toNat ∣ string.toNat

/-- A string that was allocated: `shared_buf` and `shared_capacity` -/
structure Buffer where
  ptr : UInt64
  cap : UInt64
deriving DecidableEq, Repr

/-- `uv_buf_t` -/
structure UvBuf where
  base : UInt64
  len : UInt64
deriving DecidableEq, Repr

/-- What the user has to say about the memory: a callback that may throw, the strings of a given capacity, and the
empty string. -/
structure Memory where
  bufAllocCallback : Option (UInt64 → Option Buffer)
  allocate : UInt64 → Buffer
  empty : Buffer

/-- `Stream::buf_alloc` and `Udp::buf_alloc` -/
def Memory.bufAlloc (memory : Memory) (cap : UInt64) : Buffer :=
  match memory.bufAllocCallback with
  | some callback => (callback cap).getD memory.empty
  | none => memory.allocate cap

/-- `MIN_ALLOC_SIZE` -/
def minAllocSize : UInt64 := 1024

/-- `HandleImpl::buf_alloc` -/
def Memory.handleBufAlloc (memory : Memory) (size : UInt64) : Buffer :=
  memory.bufAlloc (if size < minAllocSize then minAllocSize else size)

variable (sizes : Sizes)

/-- `uvx_buf_alloc`, with the address of the string that it saves -/
def uvxBufAlloc (buf : Buffer) : UInt64 × UvBuf :=
  let align := (buf.ptr + buf.cap) % sizes.pointer
  let cap := buf.cap - align
  let availcap := cap - sizes.string
  (buf.ptr + availcap, { base := buf.ptr, len := availcap })

/-- `uvx_detach_buf`: the address of the string that it takes, if there is a buffer -/
def uvxDetachBuf (uvbuf : UvBuf) : Option UInt64 :=
  if uvbuf.base = 0 then none else some (uvbuf.base + uvbuf.len)

/-- `UVStream::_buf_alloc` -/
def streamBufAlloc (memory : Memory) (size : UInt64) : UInt64 × UvBuf :=
  uvxBufAlloc sizes (memory.handleBufAlloc size)

end UniEvent.ReadBuffer
