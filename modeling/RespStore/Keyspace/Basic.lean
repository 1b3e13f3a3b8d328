import RespStore.Failure
import RespStore.Keyspace.Bindings
import RespStore.Number.Binary64

/-!
The keyspace: entries bound to keys, some of them until a deadline. An expired entry stays where it
is until a visit to its key, or a sweep, takes it away; nothing that asks for live entries sees it.
-/

namespace RespStore

abbrev Fields := Bindings Text Bytes

inductive Value where
  | string (data : Bytes)
  | hash (fields : Fields)
  | list (items : List Bytes)
deriving DecidableEq

inductive Kind where
  | string
  | hash
  | list
deriving DecidableEq

def Kind.name : Kind → String
  | string => "string"
  | hash => "hash"
  | list => "list"

def Value.kind : Value → Kind
  | string _ => .string
  | hash _ => .hash
  | list _ => .list

abbrev Instant := Binary64

structure Entry where
  value : Value
  deadline : Option Instant := none
deriving DecidableEq

/-- An entry has expired at its deadline and from then on. -/
def Entry.isExpired (now : Instant) (e : Entry) : Bool :=
  match e.deadline with
  | some d => d.le now
  | none => false

abbrev Keyspace := Bindings Text Entry

inductive Change where
  | keep
  | store (e : Entry)
  | drop

namespace Keyspace

def live? (now : Instant) (k : Text) (s : Keyspace) : Option Entry :=
  (s.find? k).filter fun e => !e.isExpired now

def settle (now : Instant) (k : Text) (s : Keyspace) : Keyspace :=
  if (s.find? k).any (·.isExpired now) then s.erase k else s

def change (k : Text) (s : Keyspace) : Change → Keyspace
  | .keep => s
  | .store e => s.put k e
  | .drop => s.erase k

def visit {α : Type} (now : Instant) (k : Text) (f : Option Entry → α × Change) (s : Keyspace) :
    α × Keyspace :=
  let r := f (s.live? now k)
  (r.1, (s.settle now k).change k r.2)

def visitEach (now : Instant) (f : Option Entry → Nat × Change) (ks : List Text) (s : Keyspace) :
    Nat × Keyspace :=
  ks.foldl (fun r k => let v := r.2.visit now k f; (r.1 + v.1, v.2)) (0, s)

theorem foldl_counting {α σ : Type} {step : Nat × σ → α → Nat × σ}
    (hstep : ∀ n x a, step (n, x) a = (n + (step (0, x) a).1, (step (0, x) a).2)) (as : List α) (n : Nat) (x : σ) :
    as.foldl step (n, x) = (n + (as.foldl step (0, x)).1, (as.foldl step (0, x)).2) := by
  induction as generalizing n x with
  | nil => rfl
  | cons a as ih => rw [List.foldl_cons, List.foldl_cons, hstep, ih, ih (step (0, x) a).1, Nat.add_assoc]

theorem visitEach_cons (now : Instant) (f : Option Entry → Nat × Change) (k : Text) (ks : List Text) (s : Keyspace) :
    s.visitEach now f (k :: ks) =
      ((s.visit now k f).1 + ((s.visit now k f).2.visitEach now f ks).1,
        ((s.visit now k f).2.visitEach now f ks).2) := by
  have hstep : ∀ (n : Nat) (t : Keyspace) (k : Text), (n + (t.visit now k f).1, (t.visit now k f).2) =
      (n + (0 + (t.visit now k f).1), (t.visit now k f).2) := fun n t k => by rw [Nat.zero_add]
  rw [visitEach, List.foldl_cons, foldl_counting hstep, Nat.zero_add]
  rfl

end Keyspace

end RespStore
