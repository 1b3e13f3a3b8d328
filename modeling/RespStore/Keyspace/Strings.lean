import RespStore.Keyspace.Lifetime

/-!
Keys that hold a string of bytes.
-/

namespace RespStore.Keyspace

def set (k : Text) (data : Bytes) (s : Keyspace) : Keyspace := s.put k ⟨.string data, none⟩

def setWithLifetime (now : Instant) (k : Text) (data : Bytes) (seconds : Int) (s : Keyspace) :
    Except Failure Unit × Keyspace :=
  if seconds < 0 then (.error (.fault .negativeLifetime), s)
  else match deadlineAfter now seconds with
    | .ok d => (.ok (), s.put k ⟨.string data, some d⟩)
    | .error f => (.error f, s)

def get (now : Instant) (k : Text) (s : Keyspace) : Except Failure (Option Bytes) × Keyspace :=
  s.visit now k fun
    | none => (.ok none, .keep)
    | some ⟨.string data, _⟩ => (.ok (some data), .keep)
    | some _ => (.error (.refused .wrongType), .keep)

end RespStore.Keyspace
