import RespStore.Server.Basic

/-!
Binding and letting go of the socket. What the network answers is a parameter: the port that a socket
is bound to, or what is raised instead.
-/

namespace RespStore

/-- An error of the operating system. -/
structure BindError where
  reason : Text
deriving DecidableEq

/-- All that a bind can raise. What is no address at all, such as a port out of range, is no error of
the system. -/
inductive BindFailure where
  | system (e : BindError)
  | invalid (message : Text)
deriving DecidableEq

/-- What binding a host and a port comes to, on a network whose failures are of one type. -/
abbrev Network (ε : Type := BindError) := Text → Int → Except ε Int

variable {ε : Type}

namespace Server

def listen (net : Network ε) (s : Server) : Except ε Unit × Server :=
  if s.bound then (.ok (), s)
  else match net s.host s.port with
    | .ok port =>
      (.ok (), { s with port, bound := true, running := true, sweeping := s.sweeping || s.interval.isPositive })
    | .error e => (.error e, s)

/-- Listens, and then goes on until the server is stopped. -/
def start (net : Network ε) (s : Server) : Except ε Unit × Server :=
  match s.listen net with
  | (.ok (), s) => (.ok (), { s with serving := true })
  | r => r

def leave (s : Server) : Server := { s with running := false, serving := false }

/-- Closes a connection. Its handler finds the end of the stream and leaves, unless it is waiting to
send: then it has yet to read what had come by now. -/
def close (waiting : Bindings Nat (List Bytes)) (s : Server) (id : Nat) : Server :=
  match s.unread.find? id, waiting.find? id with
  | some _, _ => s
  | none, some data => { s with unread := s.unread.put id data }
  | none, none => s.disconnect id

/-- Ends the sweep, and if a socket is bound, closes it and every connection. Some handlers may be
waiting to send. -/
def stop (s : Server) (waiting : Bindings Nat (List Bytes) := []) : Server :=
  if s.bound then
    { s.connections.keys.foldl (close waiting) s with
      sweeping := false, bound := false, running := false, serving := false }
  else { s with sweeping := false }

/-- The handler of a closed connection has sent what it had to, and reads once more. -/
def resume (now : Instant) (id : Nat) (s : Server) : Bytes × Server :=
  match s.unread.find? id with
  | some data => { s with unread := s.unread.put id data.tail }.receive now id (data.headD [])
  | none => ([], s)

end Server

structure Background where
  server : Server
  alive : Bool := false

namespace Background

def start (net : Network ε) (b : Background) : Except ε Unit × Background :=
  if b.alive then (.ok (), b)
  else match b.server.listen net with
    | (.ok (), s) => (.ok (), ⟨s, true⟩)
    | (.error e, s) => (.error e, ⟨s, false⟩)

/-- Handlers that wait to send are cancelled. -/
def stop (b : Background) : Background := if b.alive then ⟨b.server.stop, false⟩ else b

end Background

end RespStore
