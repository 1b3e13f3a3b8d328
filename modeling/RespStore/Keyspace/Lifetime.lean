import RespStore.Keyspace.Basic

/-!
Deadlines. A lifetime in whole seconds sets one, and what remains of it is told in whole seconds,
rounded up.
-/

namespace RespStore.Keyspace

def deadlineAfter (now : Instant) (seconds : Int) : Except Failure Instant :=
  match Binary64.ofInt? seconds with
  | some t => .ok (now.add t)
  | none => .error (.fault .lifetimeTooLarge)

def expire (now : Instant) (k : Text) (seconds : Int) (s : Keyspace) : Except Failure Bool × Keyspace :=
  s.visit now k fun
    | none => (.ok false, .keep)
    | some e =>
      if seconds ≤ 0 then (.ok true, .drop)
      else match deadlineAfter now seconds with
        | .ok d => (.ok true, .store { e with deadline := some d })
        | .error f => (.error f, .keep)

def persist (now : Instant) (k : Text) (s : Keyspace) : Bool × Keyspace :=
  s.visit now k fun
    | some ⟨v, some _⟩ => (true, .store ⟨v, none⟩)
    | _ => (false, .keep)

def remaining (now deadline : Instant) : Except Failure Int :=
  match deadline.sub now with
  | .finite negative m => .ok (max 0 (Binary64.ceil negative m))
  | .infinite _ => .error (.fault .remainderInfinite)
  | .nan => .error (.fault .remainderUndefined)

def timeToLive (now : Instant) (k : Text) (s : Keyspace) : Except Failure Int × Keyspace :=
  s.visit now k fun
    | none => (.ok (-2), .keep)
    | some ⟨_, none⟩ => (.ok (-1), .keep)
    | some ⟨_, some d⟩ => (remaining now d, .keep)

end RespStore.Keyspace
