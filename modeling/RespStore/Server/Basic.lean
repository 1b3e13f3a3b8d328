import RespStore.Server.Exchange

/-!
The server: one keyspace, the connections it serves, and what it counts. Connections are told apart by
the order in which they were opened; one that has ended is no longer among them.
-/

namespace RespStore

structure Server where
  host : Text
  port : Int
  interval : Binary64
  keyspace : Keyspace := []
  connections : Bindings Nat Wire.Decoder := []
  opened : Nat := 0
  requests : Nat := 0
  bound : Bool := false
  running : Bool := false
  sweeping : Bool := false
  serving : Bool := false
  /-- What is yet to be read of a connection that was closed while its handler was waiting to send. -/
  unread : Bindings Nat (List Bytes) := []

namespace Server

def readSize : Nat := 64 * 1024

def accept (s : Server) : Nat × Server :=
  (s.opened, { s with opened := s.opened + 1, connections := s.connections.put s.opened {} })

def isServing (id : Nat) (s : Server) : Bool := (s.connections.find? id).isSome

def active (s : Server) : Nat := s.connections.length

def disconnect (id : Nat) (s : Server) : Server := { s with connections := s.connections.erase id }

def settle (id : Nat) (x : Exchange) (s : Server) : Server :=
  { s with
    keyspace := x.keyspace
    requests := x.requests
    connections :=
      if x.ending = .waiting then s.connections.put id x.decoder else s.connections.erase id }

/-- One read of a connection that is served; a read without bytes is the end of its stream. -/
def read? (now : Instant) (id : Nat) (data : Bytes) (s : Server) : Option Exchange :=
  match s.connections.find? id with
  | none => none
  | some d => if data.isEmpty then none else some (.run now s.requests [] (d.feed data) s.keyspace)

def receive (now : Instant) (id : Nat) (data : Bytes) (s : Server) : Bytes × Server :=
  match s.read? now id data with
  | some x => (x.toBytes, s.settle id x)
  | none => ([], s.disconnect id)

def reads (data : Bytes) : List Bytes := if data.isEmpty then [[]] else Pieces.chunks readSize data

def deliver (now : Instant) (id : Nat) (data : Bytes) (s : Server) : Bytes × Server :=
  (reads data).foldl
    (fun r chunk => let t := r.2.receive now id chunk; (r.1 ++ t.1, t.2)) ([], s)

def sweep (now : Instant) (s : Server) : Server := { s with keyspace := (s.keyspace.sweep now).2 }

/-- One round of the sweep: the clock goes on by the interval first. -/
def sweepRound (now : Instant) (s : Server) : Instant × Server :=
  let later := now.add s.interval
  (later, s.sweep later)

end Server

end RespStore
