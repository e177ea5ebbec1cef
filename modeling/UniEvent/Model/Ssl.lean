import Mathlib.Data.List.Basic
import Mathlib.Tactic.TypeStar
import UniEvent.Model.Queue

/-! # A stream with an SSL filter

What an `SslFilter` and the stream under it do with connects, accepts, reads and EOF; after `SslFilter.cc`,
`StreamFilter.cc`, `Stream.cc` and `Stream.h`. OpenSSL and the backend are oracles: every move brings their next
answers.

A function returns the state and the frames that wait on the stack. The user's code runs while a frame `user` is on top,
and the other frames are the code that follows a callback, so that calls of the user may come between. No other event
comes before the stack is empty, which is when control is back in the loop.
-/

namespace UniEvent.Ssl

/-- `SslFilter::State` -/
inductive Status where
  | initial
  | negotiating
  | error
  | terminal
deriving DecidableEq, Repr

/-- `SslFilter::Profile` -/
inductive Profile where
  | unknown
  | server
  | client
deriving DecidableEq, Repr

inductive Code where
  | canceled
  | timedOut
  | connectionAborted
  | connectionReset
  | brokenPipe
  | sslError
  | readStartError
  /-- An error of OpenSSL, `make_ssl_error_code` -/
  | openssl (code : ℕ)
  | other (code : ℕ)
deriving DecidableEq, Repr

/-- An error code with those nested in it, and nothing if there is no error. -/
abbrev ErrorCode := List Code

/-- `nest_ssl_error`; what was canceled stays so (`nest_error`) -/
def nestSslError (err : ErrorCode) : ErrorCode := if err = [] ∨ .canceled ∈ err then err else .sslError :: err

/-- The flags of the stream; `DONTREAD` and `IGNORE_READ` among them. -/
structure Flags where
  connecting : Bool := false
  established : Bool := false
  inConnected : Bool := false
  outConnected : Bool := false
  dontRead : Bool := false
  reading : Bool := false
  ignoreRead : Bool := false
deriving DecidableEq, Repr

/-- The connect or accept request at the front of the queue. The user may keep a connect request. -/
structure Attempt where
  id : ℕ
  server : Bool
  /-- The backend has not connected yet. -/
  tcp : Bool
  kept : Bool
deriving DecidableEq, Repr

/-- A `SslWriteRequest` of the handshake that the backend has; `owner` is its parent. -/
structure Write where
  id : ℕ
  owner : ℕ
  final : Bool
  /-- The backend handle has not been destroyed since. -/
  live : Bool
deriving DecidableEq, Repr

inductive Verdict where
  /-- `SSL_do_handshake` succeeds, or wants to read or write. -/
  | fine
  | fatal (code : ℕ)
deriving DecidableEq, Repr

/-- What `SSL_do_handshake` does: `SSL_is_init_finished` after it, the bytes that it leaves in `read_bio`, and whether
there is anything in `write_bio`. -/
structure Handshake where
  verdict : Verdict := .fine
  finished : Bool := false
  left : ℕ := 0
  output : Bool := false
deriving DecidableEq, Repr

/-- What `SSL_read` returns, with `SSL_get_error` if that is no data. -/
inductive Answer where
  | data
  | wantRead
  | zeroReturn
  | wantWrite
  | failed (code : ℕ)
deriving DecidableEq, Repr

/-- The next answers. -/
structure Oracle where
  /-- `impl()->read_start()` -/
  readStart : ErrorCode := []
  /-- `SSL_renegotiate_pending` -/
  renegotiate : Bool := false
  handshake : Handshake := {}
  read : Answer := .wantRead
  /-- `SSL_is_init_finished` after `SSL_read` -/
  readFinished : Bool := true
  /-- What `SSL_read` leaves in `read_bio`. -/
  readLeft : ℕ := 0
deriving DecidableEq, Repr

/-- Ghost. -/
inductive Event where
  /-- An attempt starts. -/
  | attempt (id : ℕ)
  /-- `NextFilter::handle_connect` or `handle_connection`, with the request -/
  | up (request : Option ℕ)
  /-- The request has left the queue; `outlived` if it is kept while a handshake write is outstanding. -/
  | ended (id : ℕ) (outlived : Bool)
  /-- `set_connect_result(true)` -/
  | connected
  | reset
  | readEvent (err : ErrorCode)
  | eofEvent
  /-- `SSL_read` reports a clean close. -/
  | closed
deriving DecidableEq, Repr

/-- What waits for a callback to return. -/
inductive Frame where
  /-- A callback of the user. -/
  | user
  /-- The rest of the loop in `SslFilter::handle_read`. -/
  | decode
  /-- `SslFilter::handle_read` after `negotiate`, which returned `pending`. -/
  | negotiated (pending : ℕ)
  /-- `SslFilter::handle_write` after `negotiation_finished`. -/
  | finalWritten
  /-- `_reset` or `_clear` at the end of `queue.cancel`. -/
  | reset (clear : Bool)
deriving DecidableEq, Repr

structure State where
  /-- Whether the stream has an SSL filter. -/
  ssl : Bool
  flags : Flags
  status : Status
  profile : Profile
  /-- `source_request` -/
  source : Option ℕ
  /-- `server_filter.lock()` -/
  serverAlive : Bool
  /-- `SSL_is_init_finished` -/
  initFinished : Bool
  /-- The bytes in `read_bio`. -/
  bio : ℕ
  attempt : Option Attempt
  writes : List Write
  nextId : ℕ
  oracle : Oracle
  stack : List Frame
  /-- An assertion failed or a null pointer was used. -/
  aborted : Bool
  /-- Ghost: nothing in `read_bio` waits for `SSL_read`: since bytes were appended last it has returned no data, or
  the handshake has used them all. -/
  drained : Bool
  /-- Ghost: the backend has reported EOF or `connection_reset` for this connection. -/
  eofSeen : Bool
  trace : List Event

namespace State

variable (s : State)

def log (event : Event) : State := { s with trace := event :: s.trace }

def abort : State := { s with aborted := true }

def setFlags (flags : Flags) : State := { s with flags := flags }

def wantread : Bool := !s.flags.dontRead

def connected : Bool := s.flags.inConnected || s.flags.outConnected

/-- Run `next` after a call; if the call has ended in a callback, `next` waits for it as `frame`. -/
def andThen (call : State × List Frame) (frame : Frame) (next : State → State × List Frame) : State × List Frame :=
  if call.1.aborted = true then call
  else if call.2 = [] then next call.1
  else (call.1, call.2 ++ [frame])

/-! ### The stream -/

/-- `Stream::_read_start` -/
def startReading : ErrorCode × State :=
  if s.flags.reading = true ∨ s.flags.established = false then ([], s)
  else if s.oracle.readStart ≠ [] then (s.oracle.readStart, s)
  else ([], s.setFlags { s.flags with reading := true })

/-- `Stream::read_start` -/
def readStart : State := (startReading (s.setFlags { s.flags with dontRead := false, ignoreRead := false })).2

/-- `Stream::read_stop` -/
def readStop : State := s.setFlags { s.flags with dontRead := true, reading := false }

/-- `Stream::read_ignore` -/
def readIgnore : State := s.setFlags { s.flags with ignoreRead := true }

/-- `Stream::clear_out_connected` -/
def clearOutConnected : State :=
  s.setFlags { s.flags with
    outConnected := false
    established := if s.flags.inConnected = true then s.flags.established else false }

/-- `Stream::clear_in_connected` -/
def clearInConnected : State :=
  s.setFlags { s.flags with
    inConnected := false
    established := if s.flags.outConnected = true then s.flags.established else false }

/-- `Stream::set_connect_result` -/
def setConnectResult (ok : Bool) : ErrorCode × State :=
  let s := s.setFlags { s.flags with connecting := false }
  if ok = true then
    let s := (s.setFlags { s.flags with inConnected := true, outConnected := true, established := true }).log .connected
    if s.wantread = true then s.startReading else ([], s)
  else ([], s)

/-- The request leaves the queue. If nobody keeps it, its subrequest is stopped when it is destroyed. -/
def finish (attempt : Attempt) : State :=
  let owned := s.writes.any fun write => write.owner = attempt.id
  let s := if attempt.kept = true then s else
    { s with writes := s.writes.filter fun write => write.owner ≠ attempt.id }
  ({ s with attempt := none }).log (.ended attempt.id (attempt.kept && owned))

/-- The error of a connect after `set_connect_result` -/
def nestReadStart (err failed : ErrorCode) : ErrorCode :=
  if err = [] ∧ failed ≠ [] then .readStartError :: failed else err

/-- A connect that fails cancels the rest of the queue after its callback. -/
def connectFrames (err : ErrorCode) : List Frame := if err = [] then [.user] else [.user, .reset false]

/-- `Stream::finalize_handle_connect`; the cancellation of the queue ends with `_reset`. -/
def finalizeHandleConnect (err : ErrorCode) (request : Option ℕ) : State × List Frame :=
  match request, s.attempt with
  | some id, some attempt =>
    if attempt.id = id then
      let (failed, s) := s.setConnectResult (err = [])
      (s.finish attempt, connectFrames (nestReadStart err failed))
    else (s.abort, [])
  | _, _ => (s.abort, [])

/-- `Stream::finalize_handle_connection` for the stream of the client -/
def finalizeHandleConnection (err : ErrorCode) (request : Option ℕ) : State × List Frame :=
  let (_, s) := s.setConnectResult (err = [])
  match request, s.attempt with
  | some id, some attempt => if attempt.id = id then (s.finish attempt, [.user]) else (s.abort, [])
  | some _, none => (s.abort, [])
  | none, _ => (s, [.user])

/-- `Stream::finalize_handle_read` -/
def finalizeHandleRead (err : ErrorCode) : State × List Frame := (s.log (.readEvent err), [.user])

/-- `Stream::finalize_handle_eof` -/
def finalizeHandleEof : State × List Frame := (s.log .eofEvent, [.user])

/-! ### The filter -/

/-- The filter of the stream is new, or there is none. -/
def newFilter (ssl : Bool) : State :=
  { s with
    ssl := ssl
    status := .initial
    profile := .unknown
    source := none
    serverAlive := false
    initFinished := false
    bio := 0
    drained := true }

/-- `SslFilter::reset` of a filter in use, with a new `SSL` -/
def renew : State :=
  { s with source := none, status := .initial, initFinished := false, bio := 0, drained := true }

/-- `SslFilter::reset` -/
def filterReset : State := if s.status = .initial then s else s.renew

/-- `NextFilter::handle_connect` -/
def passConnect (err : ErrorCode) (request : Option ℕ) : State × List Frame :=
  (s.log (.up request)).finalizeHandleConnect err request

/-- `NextFilter::handle_connection` of the server's filter -/
def passConnection (err : ErrorCode) (request : Option ℕ) : State × List Frame :=
  (s.log (.up request)).finalizeHandleConnection err request

/-- `StreamFilter::read_stop` -/
def filterReadStop : State := if s.wantread = true then s else s.readStop

/-- `SslFilter::negotiation_finished` up to where it passes the outcome on -/
def conclude (err : ErrorCode) : State :=
  { s.filterReadStop with status := if err = [] then .terminal else .error, source := none }

/-- `SslFilter::negotiation_finished` passes the outcome on. -/
def passOutcome (err : ErrorCode) (request : Option ℕ) : State × List Frame :=
  if s.profile = .client then s.passConnect err request
  else if s.serverAlive = true then s.passConnection err request
  else (s, [])

/-- `SslFilter::negotiation_finished` -/
def negotiationFinished (err : ErrorCode) : State × List Frame :=
  if s.status = .terminal ∨ s.status = .error then (s, [])
  else if s.connected = true then ({ s with status := .terminal }, [])
  else (s.conclude err).passOutcome (nestSslError err) s.source

/-- `StreamFilter::subreq_write` of a handshake message. A subrequest that is still outstanding would be destroyed in
the middle of its execution. -/
def subreqWrite (final : Bool) : State :=
  match s.source with
  | none => s.abort
  | some owner =>
    if s.writes.any (fun write => write.owner = owner) = true then s.abort
    else { s with
      writes := { id := s.nextId, owner := owner, final := final, live := true } :: s.writes
      nextId := s.nextId + 1 }

/-- The result of `SSL_do_handshake`. -/
def doHandshake : State :=
  let left := min s.oracle.handshake.left s.bio
  { s with initFinished := s.oracle.handshake.finished, bio := left, drained := if left = 0 then true else s.drained }

/-- `SslFilter::negotiate` after `SSL_do_handshake`, with what it returns -/
def handshaken : (State × List Frame) × ℕ :=
  match s.oracle.handshake.verdict with
  | .fatal code => (s.negotiationFinished [.openssl code], 0)
  | .fine =>
    if s.initFinished = true then
      if s.oracle.handshake.output = true then ((s.subreqWrite true, []), 0) else (s.negotiationFinished [], s.bio)
    else if s.oracle.handshake.output = true then ((s.subreqWrite false, []), 0)
    else ((s, []), 0)

/-- `SslFilter::negotiate` -/
def negotiate : (State × List Frame) × ℕ :=
  if (s.initFinished = false ∧ s.flags.connecting = true) ∨ s.oracle.renegotiate = true then
    match ({ s with status := .negotiating }).startReading with
    | ([], s) => s.doHandshake.handshaken
    | (err, s) => (s.negotiationFinished err, 0)
  else ((s.abort, []), 0)

/-- The result of `SSL_read`. -/
def sslRead : State :=
  { s with
    initFinished := s.oracle.readFinished
    bio := min s.oracle.readLeft s.bio
    drained := if s.oracle.read = .data then s.drained else true }

/-- One round of the loop in `SslFilter::handle_read`, and what follows the loop. -/
def decode : State × List Frame :=
  if s.status = .initial then (s, [])
  else
    match s.oracle.read with
    | .data => ((s.sslRead.finalizeHandleRead []).1, [.user, .decode])
    | .wantRead => (s.sslRead, [])
    | .zeroReturn => (s.sslRead.log .closed).finalizeHandleEof
    | .wantWrite => (s.sslRead.subreqWrite false, [])
    | .failed code => s.sslRead.finalizeHandleRead (nestSslError [.openssl code])

/-- `SslFilter::handle_read` once the handshake has had its share. -/
def decodePending (pending : ℕ) : State × List Frame :=
  if pending = 0 ∨ s.status = .negotiating then (s, []) else s.decode

/-- `SslBio::set_buf` -/
def setBuf (length : ℕ) : State :=
  { s with bio := s.bio + length, drained := if length = 0 then s.drained else false }

/-- `SslFilter::handle_read` of an error -/
def filterReadError (err : ErrorCode) : State × List Frame :=
  if s.flags.connecting = false then (s, [])
  else if s.initFinished = false then s.negotiationFinished err
  else s.finalizeHandleRead err

/-- `SslFilter::handle_read` of bytes -/
def filterReadBytes (length : ℕ) : State × List Frame :=
  let finished := s.initFinished
  let s := s.setBuf length
  if finished = true then s.decodePending (s.bio + length)
  else
    let (call, pending) := s.negotiate
    andThen call (.negotiated pending) (decodePending · pending)

/-- `SslFilter::handle_read` -/
def filterHandleRead (length : ℕ) (err : ErrorCode) : State × List Frame :=
  if s.status = .error then s.finalizeHandleRead err
  else if s.flags.connecting = true ∨ s.connected = true then
    if err ≠ [] then s.filterReadError err else s.filterReadBytes length
  else (s.abort, [])

/-- `SslFilter::handle_eof` -/
def filterHandleEof : State × List Frame :=
  match s.status with
  | .terminal => s.finalizeHandleEof
  | .negotiating => s.negotiationFinished [.connectionAborted]
  | _ => (s, [])

/-- `SslFilter::handle_write` after the last `negotiation_finished` -/
def finalWritten : State × List Frame :=
  if s.bio ≠ 0 ∧ s.serverAlive = true then s.filterHandleRead 0 [] else (s, [])

/-- `WriteRequest::handle_event` and `StreamFilter::subreq_done` for a handshake message -/
def subreqDone (err : ErrorCode) (write : Write) : State :=
  { (if .brokenPipe ∈ err then s.clearOutConnected else s) with
    writes := s.writes.filter fun other => other.id ≠ write.id }

/-- `SslFilter::handle_write` for a handshake message -/
def handleWrite (err : ErrorCode) (write : Write) : State × List Frame :=
  if err ≠ [] then (s.subreqDone err write).negotiationFinished err
  else if write.final = true then
    andThen ((s.subreqDone err write).negotiationFinished []) .finalWritten finalWritten
  else (s.subreqDone err write, [])

/-- `SslFilter::start_ssl_connection` -/
def startSslConnection (profile : Profile) (request : ℕ) : State × List Frame :=
  ({ s with source := some request, profile := profile }).negotiate.1

/-- `SslFilter::handle_connect` -/
def filterHandleConnect (err : ErrorCode) (request : ℕ) : State × List Frame :=
  if err ≠ [] then s.filterReset.passConnect err (some request)
  else s.filterReset.startSslConnection .client request

/-! ### Events -/

/-- `Stream::handle_eof` -/
def handleEof : State × List Frame :=
  if s.flags.established = false then (s, [])
  else if s.ssl = true then s.clearInConnected.filterHandleEof
  else s.clearInConnected.finalizeHandleEof

/-- `Stream::handle_read` -/
def handleRead (length : ℕ) (err : ErrorCode) : State × List Frame :=
  if err = [.connectionReset] then s.handleEof
  else if s.flags.ignoreRead = true then (s, [])
  else if s.ssl = true then s.filterHandleRead length err
  else s.finalizeHandleRead err

/-- The backend has answered a connect request. -/
def answered (err : ErrorCode) (attempt : Attempt) : State :=
  { s with
    flags := { s.flags with established := if err = [] then true else s.flags.established }
    attempt := some { attempt with tcp := false } }

/-- `ConnectRequest::handle_event` -/
def handleConnect (err : ErrorCode) (attempt : Attempt) : State × List Frame :=
  if s.ssl = true then (s.answered err attempt).filterHandleConnect err attempt.id
  else (s.answered err attempt).finalizeHandleConnect err (some attempt.id)

/-- `Request::cancel` of the request at the front: a subrequest of the filter is canceled in its place, and the request
of an accept just leaves the queue. -/
def cancel (err : ErrorCode) (attempt : Attempt) : State × List Frame :=
  if attempt.server = true then (s.finish attempt, [])
  else if s.ssl = true then
    match s.writes.find? fun write => write.owner = attempt.id with
    | some write => s.handleWrite err write
    | none => s.handleConnect err attempt
  else s.handleConnect err attempt

/-- `Stream::_reset` or `Stream::_clear` -/
def doReset (clear : Bool) : State :=
  let dontRead := if clear = true then false else s.flags.dontRead
  let s := s.filterReset
  ({ s with
    flags := { dontRead := dontRead }
    ssl := if clear = true then false else s.ssl
    writes := s.writes.map (fun write : Write => { write with live := false })
    eofSeen := false }).log .reset

/-- What follows a callback. -/
def resume (frame : Frame) : State × List Frame :=
  match frame with
  | .user => (s, [])
  | .decode => if s.wantread = true then s.decode else (s, [])
  | .negotiated pending => s.decodePending pending
  | .finalWritten => s.finalWritten
  | .reset clear => (s.doReset clear, [])

/-- A callback has returned: the frames below it go on up to the next callback. -/
def unwind : List Frame → State → State
  | [], s => { s with stack := [] }
  | .user :: rest, s => { s with stack := .user :: rest }
  | frame :: rest, s =>
    let call := s.resume frame
    if call.1.aborted = true ∨ call.2 ≠ [] then { call.1 with stack := call.2 ++ rest } else unwind rest call.1

/-- The frames of a call go on the stack. -/
def push (call : State × List Frame) : State := { call.1 with stack := call.2 ++ call.1.stack }

end State

/-- Calls of the user, at any time that the user's code runs. -/
inductive Op where
  | readStart
  | readStop
  | readIgnore
  /-- `reset` or `clear`; so does `disconnect` end. -/
  | reset (clear : Bool)
  /-- A connect request is executed; `kept` if the user keeps it. -/
  | connect (kept : Bool)
  /-- The last reference to the stream that listens is dropped. -/
  | dropServer
  /-- `use_ssl` or `no_ssl` -/
  | useSsl (on : Bool)
deriving DecidableEq, Repr

/-- Events of the loop. -/
inductive Input where
  /-- `Stream::accept` for this stream, with or without an SSL filter -/
  | accept (ssl : Bool)
  /-- The backend has connected. -/
  | connected (err : ErrorCode)
  | read (length : ℕ)
  | readError (err : ErrorCode)
  | eof
  /-- The backend is done with a handshake message. -/
  | written (write : Write) (err : ErrorCode)
  /-- The timer of the connect request. -/
  | timeout
  /-- A write of the user fails with `broken_pipe`, or a shutdown succeeds. -/
  | outClosed
deriving DecidableEq, Repr

inductive Move where
  /-- The user calls. -/
  | op (op : Op)
  /-- The callback on top of the stack returns. -/
  | ret
  /-- Control is back in the loop, and an event comes. -/
  | input (input : Input)
deriving DecidableEq, Repr

namespace State

variable (s : State)

/-- `Stream::_reset` or `Stream::_clear` at the end of `queue.cancel`; the cancellations that are under way already do
not run theirs. -/
def resetNow (clear : Bool) : State :=
  { s.doReset clear with stack := s.stack.filter fun frame => frame ≠ .reset false ∧ frame ≠ .reset true }

/-- `queue.cancel` after the request at the front was canceled, which must have left the queue. -/
def afterCancel (clear : Bool) (call : State × List Frame) : State :=
  if call.1.aborted = true then call.1
  else if call.1.attempt ≠ none then call.1.abort
  else if call.2 = [] then call.1.resetNow clear
  else { call.1 with stack := [.user, .reset clear] ++ call.1.stack }

/-- `Stream::reset` or `Stream::clear` -/
def userReset (clear : Bool) : State :=
  match s.attempt with
  | none => s.resetNow clear
  | some attempt => afterCancel clear (s.cancel [.canceled] attempt)

/-- A request comes to the front of the queue. -/
def begin (server kept : Bool) : State :=
  ({ s with
    attempt := some { id := s.nextId, server := server, tcp := !server, kept := kept }
    nextId := s.nextId + 1 }).log (.attempt s.nextId)

/-- `ConnectRequest::exec` -/
def connect (kept : Bool) : State := (s.setFlags { s.flags with connecting := true }).begin false kept

def userOp : Op → Option State
  | .readStart => some s.readStart
  | .readStop => some s.readStop
  | .readIgnore => some s.readIgnore
  | .reset clear => some (s.userReset clear)
  | .connect kept =>
    -- a queue that is locked executes nothing
    if s.attempt = none ∧ Frame.reset false ∉ s.stack ∧ Frame.reset true ∉ s.stack then some (s.connect kept) else none
  | .dropServer => some { s with serverAlive := false }
  | .useSsl on =>
    -- filters are not changed while the stream is active
    if s.flags.connecting = true ∨ s.flags.established = true then some s
    else if s.writes = [] ∧ s.flags.reading = false then some (s.newFilter on)
    else none

/-- `Stream::accept` for a fresh stream, to which `SslFilter::handle_connection` adds a filter -/
def accept (ssl : Bool) : State × List Frame :=
  let s := (s.newFilter ssl).setFlags { s.flags with connecting := true, established := true }
  if ssl = true then (({ s with serverAlive := true }).begin true false).startSslConnection .server s.nextId
  else s.finalizeHandleConnection [] none

/-- One event of the loop. The backend reads if it was told to, reports the end of the input once, and connects no
socket that is connected. -/
def handle : Input → Option (State × List Frame)
  | .accept ssl =>
    if s.status = .initial ∧ s.attempt = none ∧ s.writes = [] ∧ s.flags.connecting = false ∧ s.flags.established = false
    then some (s.accept ssl) else none
  | .connected err =>
    match s.attempt with
    | some attempt =>
      if attempt.tcp = true ∧ (err = [] → s.connected = false) then some (s.handleConnect err attempt) else none
    | none => none
  | .read length => if s.flags.reading = true then some (s.handleRead length []) else none
  | .readError err =>
    if s.flags.reading = true ∧ err ≠ [] then
      if err = [.connectionReset] then
        if s.eofSeen = true then none else some (({ s with eofSeen := true }).handleRead 0 err)
      else some (s.handleRead 0 err)
    else none
  | .eof => if s.flags.reading = true ∧ s.eofSeen = false then some ({ s with eofSeen := true }).handleEof else none
  | .written write err =>
    if write ∈ s.writes ∧ (err ≠ [] ∨ write.live = true) then
      -- `clear` destroys the filter, to which the message still points
      if s.ssl = true then some (s.handleWrite err write) else some (s.abort, [])
    else none
  | .timeout =>
    match s.attempt with
    | some attempt => if attempt.server = false then some (s.cancel [.timedOut] attempt) else none
    | none => none
  | .outClosed => if s.flags.outConnected = true then some (s.clearOutConnected, []) else none

def act : Move → Option State
  | .op op => if s.stack = [] ∨ s.stack.head? = some .user then s.userOp op else none
  | .ret =>
    match s.stack with
    | .user :: rest => some (unwind rest s)
    | _ => none
  | .input input => if s.stack = [] then (s.handle input).map push else none

/-- The answers of OpenSSL and of the backend to what comes next. -/
def ask (oracle : Oracle) : State := { s with oracle := oracle }

def step (move : Oracle × Move) : Option State :=
  if s.aborted = true then none else (s.ask move.1).act move.2

/-- What has happened after the moves. -/
def run (moves : List (Oracle × Move)) : Option State := moves.foldlM step s

end State

/-- A new stream. -/
def fresh (ssl : Bool) : State where
  ssl := ssl
  flags := {}
  status := .initial
  profile := .unknown
  source := none
  serverAlive := false
  initFinished := false
  bio := 0
  attempt := none
  writes := []
  nextId := 0
  oracle := {}
  stack := []
  aborted := false
  drained := true
  eofSeen := false
  trace := []

end UniEvent.Ssl
