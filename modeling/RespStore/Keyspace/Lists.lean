import RespStore.Keyspace.Basic

/-!
Keys that hold a list. A key that is absent reads as the empty list, and no key holds that list.
-/

namespace RespStore.Keyspace

def itemsOf : Option Entry → Except Failure (List Bytes)
  | none => .ok []
  | some ⟨.list items, _⟩ => .ok items
  | some _ => .error (.refused .wrongType)

def readItems {α : Type} (now : Instant) (k : Text) (f : List Bytes → α) (s : Keyspace) :
    Except Failure α × Keyspace :=
  s.visit now k fun e => ((itemsOf e).map f, .keep)

def listLength (now : Instant) (k : Text) (s : Keyspace) : Except Failure Nat × Keyspace :=
  s.readItems now k List.length

def place (n : Nat) (i : Int) : Int := if i < 0 then i + n else i

/-- An end of a slice. A negative one counts from the end, and one beyond an end of the list is that end. -/
def sliceEnd (n : Nat) (i : Int) : Nat := min n (place n i).toNat

def slice (i j : Int) (items : List Bytes) : List Bytes :=
  (items.take (sliceEnd items.length j)).drop (sliceEnd items.length i)

def window (start stop : Int) (items : List Bytes) : List Bytes :=
  let first := max (place items.length start) 0
  let last := min (place items.length stop) (items.length - 1)
  if last < first ∨ items.length ≤ first then [] else slice first (last + 1) items

theorem mem_of_mem_window {start stop : Int} {items : List Bytes} {b : Bytes} (h : b ∈ window start stop items) :
    b ∈ items := by
  unfold window at h
  dsimp only at h
  split at h
  · cases h
  · exact List.mem_of_mem_take (List.mem_of_mem_drop h)

def listRange (now : Instant) (k : Text) (start stop : Int) (s : Keyspace) :
    Except Failure (List Bytes) × Keyspace :=
  s.readItems now k (window start stop)

def storeItems (deadline : Option Instant) : List Bytes → Except Failure Nat × Change
  | [] => (.ok 0, .drop)
  | items => (.ok items.length, .store ⟨.list items, deadline⟩)

def changeItems (now : Instant) (k : Text) (f : List Bytes → List Bytes) (s : Keyspace) :
    Except Failure Nat × Keyspace :=
  s.visit now k fun e =>
    match itemsOf e with
    | .ok items => storeItems (e.bind (·.deadline)) (f items)
    | .error fault => (.error fault, .keep)

def pushFront (now : Instant) (k : Text) (data : List Bytes) (s : Keyspace) :
    Except Failure Nat × Keyspace := s.changeItems now k fun items => data.reverse ++ items

def pushBack (now : Instant) (k : Text) (data : List Bytes) (s : Keyspace) :
    Except Failure Nat × Keyspace := s.changeItems now k fun items => items ++ data

end RespStore.Keyspace
