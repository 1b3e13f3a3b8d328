import RespStore.Keyspace.Basic

/-!
Keys that hold fields. A key that is absent reads as no fields at all, and a hash whose last field
is deleted goes with it.
-/

namespace RespStore.Keyspace

def fieldsOf : Option Entry → Except Failure Fields
  | none => .ok []
  | some ⟨.hash fields, _⟩ => .ok fields
  | some _ => .error (.refused .wrongType)

def readFields {α : Type} (now : Instant) (k : Text) (f : Fields → α) (s : Keyspace) :
    Except Failure α × Keyspace :=
  s.visit now k fun e => ((fieldsOf e).map f, .keep)

def fieldValue (now : Instant) (k field : Text) (s : Keyspace) : Except Failure (Option Bytes) × Keyspace :=
  s.readFields now k (·.find? field)

def fieldValues (now : Instant) (k : Text) (fields : List Text) (s : Keyspace) :
    Except Failure (List (Option Bytes)) × Keyspace :=
  s.readFields now k fun fs => fields.map (fs.find? ·)

def hasField (now : Instant) (k field : Text) (s : Keyspace) : Except Failure Bool × Keyspace :=
  s.readFields now k fun fs => (fs.find? field).isSome

def fields (now : Instant) (k : Text) (s : Keyspace) : Except Failure Fields × Keyspace :=
  s.readFields now k id

def putFields (now : Instant) (k : Text) (kvs : List (Text × Bytes)) (s : Keyspace) :
    Except Failure Unit × Keyspace :=
  s.visit now k fun e =>
    match fieldsOf e with
    | .ok fs => (.ok (), .store ⟨.hash (fs.putAll kvs), e.bind (·.deadline)⟩)
    | .error f => (.error f, .keep)

def putField (now : Instant) (k field : Text) (data : Bytes) (s : Keyspace) :
    Except Failure Unit × Keyspace := s.putFields now k [(field, data)]

def eraseFields (fields : List Text) (fs : Fields) : Nat × Fields :=
  fields.foldl (fun r f => if (r.2.find? f).isSome then (r.1 + 1, r.2.erase f) else r) (0, fs)

theorem eraseFields_cons (f : Text) (fields : List Text) (fs : Fields) :
    eraseFields (f :: fields) fs =
      if (fs.find? f).isSome then
        (1 + (eraseFields fields (fs.erase f)).1, (eraseFields fields (fs.erase f)).2)
      else eraseFields fields fs := by
  rw [eraseFields, List.foldl_cons]
  split
  · exact foldl_counting (fun n fs f => by dsimp only; split <;> simp) fields 1 (fs.erase f)
  · rfl

def deleteFields (now : Instant) (k : Text) (fields : List Text) (s : Keyspace) :
    Except Failure Nat × Keyspace :=
  s.visit now k fun
    | none => (.ok 0, .keep)
    | some ⟨.hash fs, deadline⟩ =>
      match eraseFields fields fs with
      | (n, []) => (.ok n, .drop)
      | (n, rest) => (.ok n, .store ⟨.hash rest, deadline⟩)
    | some _ => (.error (.refused .wrongType), .keep)

end RespStore.Keyspace
