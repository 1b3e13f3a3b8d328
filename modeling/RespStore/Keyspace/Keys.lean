import RespStore.Glob
import RespStore.Keyspace.Basic

/-!
What is asked of keys whatever they hold, and of the keyspace as a whole.
-/

namespace RespStore.Keyspace

def typeOf (now : Instant) (k : Text) (s : Keyspace) : Option Kind × Keyspace :=
  s.visit now k fun e => (e.map (·.value.kind), .keep)

def countOne : Option Entry → Nat × Change
  | some _ => (1, .keep)
  | none => (0, .keep)

def dropOne : Option Entry → Nat × Change
  | some _ => (1, .drop)
  | none => (0, .keep)

def countExisting (now : Instant) (ks : List Text) (s : Keyspace) : Nat × Keyspace :=
  s.visitEach now countOne ks

def delete (now : Instant) (ks : List Text) (s : Keyspace) : Nat × Keyspace := s.visitEach now dropOne ks

def isLive (now : Instant) (p : Text × Entry) : Bool := !p.2.isExpired now

def keysMatching (now : Instant) (pattern : Text) (s : Keyspace) : List Text :=
  Bindings.keys (s.filter fun p => isLive now p && pattern.matchesGlob p.1)

def size (now : Instant) (s : Keyspace) : Nat := s.countP (isLive now)

def flush (_ : Keyspace) : Keyspace := []

def sweep (now : Instant) (s : Keyspace) : Nat × Keyspace :=
  (s.countP fun p => !isLive now p, s.filter (isLive now))

structure Stats where
  total : Nat
  expired : Nat
  strings : Nat
  hashes : Nat
  lists : Nat

def Stats.active (t : Stats) : Nat := t.total - t.expired

def countKind (now : Instant) (kind : Kind) (s : Keyspace) : Nat :=
  s.countP fun p => isLive now p && p.2.value.kind = kind

def stats (now : Instant) (s : Keyspace) : Stats where
  total := s.length
  expired := s.countP fun p => !isLive now p
  strings := s.countKind now .string
  hashes := s.countKind now .hash
  lists := s.countKind now .list

end RespStore.Keyspace
