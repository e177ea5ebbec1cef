import UniEvent.Model.Stream

/-! # The flags of a connection

The flags of one stream, a `Tcp` or a `Pipe`, and everything that changes them, after `Stream.h`, `Stream.cc`, `Tcp.cc`
and `Pipe.cc`. A step is a piece of code in which no user code runs. Between the backend's answer to an accept or a
connect and what `Stream` makes of it lie the call of `on_establish` and the work of the filters; what is due after them
is kept in `due`.

`succeeded` is ghost: since the last reset, the backend has opened, accepted or connected this handle.
-/

namespace UniEvent.StreamOpen

structure Flags extends Stream.Flags where
  listening : Bool := false
  ignoreRead : Bool := false
deriving DecidableEq, Repr

namespace Flags

/-- `_read_start`; `answer` is that of the backend if it is asked -/
def readStart (answer : Option Err) (f : Flags) : Option Err × Flags :=
  if f.reading = true ∨ f.established = false then (none, f)
  else if answer = none then (none, { f with reading := true })
  else (answer, f)

def readStop (f : Flags) : Flags := { f with dontRead := true, reading := false }

def setConnectResult (ok : Bool) (answer : Option Err) (f : Flags) : Option Err × Flags :=
  let f := { f with connecting := false }
  if ok = true then
    let f := { f with inConnected := true, outConnected := true, established := true }
    if f.dontRead = false then f.readStart answer else (none, f)
  else (none, f)

def clearOutConnected (f : Flags) : Flags :=
  let f := { f with outConnected := false }
  if f.inConnected = false then { f with established := false } else f

def clearInConnected (f : Flags) : Flags :=
  let f := { f with inConnected := false }
  if f.outConnected = false then { f with established := false } else f

def setShutdown (ok : Bool) (f : Flags) : Flags :=
  let f := { f with shutting := false, shut := true }
  if ok = true then f.clearOutConnected else f

/-- `Tcp::open`: the answers of the backend to `open` and to `read_start`, and whether there is a peer -/
def tcpOpen (opened : Option Err) (peer : Bool) (answer : Option Err) (f : Flags) : Option Err × Flags :=
  match opened with
  | some err => (some err, f)
  | none => if peer = true then f.setConnectResult true answer else (none, f)

/-- A combination of `readable`, 1, and `writable`, 2; or `not_connected`, 0 -/
abbrev Mode := UInt32

/-- `Pipe::open`; after an error of the backend it goes on -/
def pipeOpen (mode : Mode) (opened answer : Option Err) (f : Flags) : Option Err × Flags :=
  let error := opened
  if mode ≠ 0 then
    let f := if mode &&& 1 = 0 then f.readStop else f
    let (error, f) := f.setConnectResult true answer
    (error, if mode &&& 2 = 0 then f.clearOutConnected else f)
  else (error, f)

/-- `flags &= DONTREAD;` -/
def reset (f : Flags) : Flags := { dontRead := f.dontRead }

end Flags

open Flags

structure Connection where
  flags : Flags := {}
  /-- The answers of the backend to accepts and connects of which `Stream` has not been told. -/
  due : List (Option Err) := []
  succeeded : Bool := false
deriving DecidableEq, Repr

inductive Step where
  | tcpOpen (opened : Option Err) (peer : Bool) (answer : Option Err)
  | pipeOpen (mode : Mode) (opened answer : Option Err)
  | listen
  /-- `Stream::accept` of this stream as the client, up to `on_establish` -/
  | accept (err : Option Err)
  /-- `ConnectRequest::exec` -/
  | connect
  /-- `ConnectRequest::handle_event`, up to `on_establish` -/
  | connectEvent (err : Option Err)
  /-- `set_connect_result` of `finalize_handle_connection` and `finalize_handle_connect`, for the accept or connect in
  this place; the filters may have made an error of it. -/
  | finalize (place : ℕ) (filtered answer : Option Err)
  /-- `WriteRequest::handle_event` with `broken_pipe` -/
  | brokenPipe
  | eof
  | shutdown
  | shutdownEvent (err : Option Err)
  | reset
  | clear
  | readStart (answer : Option Err)
  | readStop
  | readIgnore
deriving DecidableEq, Repr

namespace Connection

def step (s : Connection) : Step → Connection
  | .tcpOpen opened peer answer =>
    { s with flags := (s.flags.tcpOpen opened peer answer).2, succeeded := s.succeeded || opened.isNone }
  | .pipeOpen mode opened answer =>
    { s with flags := (s.flags.pipeOpen mode opened answer).2, succeeded := s.succeeded || opened.isNone }
  | .listen => { s with flags := { s.flags with listening := true } }
  | .accept err =>
    { flags := if err = none then { s.flags with connecting := true, established := true } else s.flags
      due := s.due ++ [err]
      succeeded := s.succeeded || err.isNone }
  | .connect => { s with flags := { s.flags with connecting := true } }
  | .connectEvent err =>
    { flags := if err = none then { s.flags with established := true } else s.flags
      due := s.due ++ [err]
      succeeded := s.succeeded || err.isNone }
  | .finalize place filtered answer =>
    match s.due[place]? with
    | none => s
    | some err =>
      { s with
        flags := (s.flags.setConnectResult (err.or filtered).isNone answer).2
        due := s.due.eraseIdx place }
  | .brokenPipe => { s with flags := s.flags.clearOutConnected }
  | .eof => if s.flags.established = false then s else { s with flags := s.flags.clearInConnected }
  | .shutdown => { s with flags := { s.flags with shutting := true } }
  | .shutdownEvent err => { s with flags := s.flags.setShutdown err.isNone }
  | .reset => { s with flags := s.flags.reset, succeeded := false }
  | .clear => { s with flags := {}, succeeded := false }
  | .readStart answer =>
    { s with flags := ({ s.flags with dontRead := false, ignoreRead := false }.readStart answer).2 }
  | .readStop => { s with flags := s.flags.readStop }
  | .readIgnore => { s with flags := { s.flags with ignoreRead := true } }

def run (steps : List Step) (s : Connection) : Connection := steps.foldl step s

end Connection

end UniEvent.StreamOpen
