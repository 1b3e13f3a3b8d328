import RespStore.Proofs.Command.Shape
import RespStore.Proofs.Keyspace.Live

/-! What commands do to the keyspace. Four commands look at all of it; each of the others either answers
without looking, assigns to one key, visits one key, or visits keys one after another. -/

namespace RespStore

def Command.isGlobal : Command → Bool
  | keys | dbsize | flushdb | flushall => true
  | _ => false

def Request.command? (r : Request) : Option Command := Command.ofText? r.name

namespace Dispatch

def named (args : List Bytes) : Command → List Text
  | .hello | .ping | .echo | .quit | .keys | .dbsize | .flushdb | .flushall => []
  | .del | .exist => args.map keyOf
  | _ => (args.take 1).map keyOf

inductive Touches (now : Instant) : List Text → (Keyspace → Outcome) → Prop
  | answer (ks : List Text) (x : Except Failure Reply) : Touches now ks fun s => (x, s)
  | assign (k : Text) (e : Entry) (r : Reply) : Touches now [k] fun s => (.ok r, s.put k e)
  | visit (k : Text) (f : Option Entry → Except Failure Reply × Change) :
    Touches now [k] fun s => s.visit now k f
  | visitEach (ks : List Text) (f : Option Entry → Nat × Change) :
    Touches now ks fun s => sure count (s.visitEach now f ks)

variable {now : Instant}

theorem Touches.sure {α : Type} (k : Text) (f : Option Entry → α × Change) (g : α → Reply) :
    Touches now [k] fun s => sure g (s.visit now k f) :=
  .visit k fun e => (.ok (g (f e).1), (f e).2)

theorem Touches.trying {α : Type} (k : Text) (f : Option Entry → Except Failure α × Change)
    (g : α → Reply) : Touches now [k] fun s => trying g (s.visit now k f) :=
  .visit k fun e => ((f e).1.map g, (f e).2)

theorem touches_withInteger {ks : List Text} (data : Bytes) {f : Int → Keyspace → Outcome}
    (hf : ∀ n, Touches now ks (f n)) :
    Touches now ks fun s => withInteger data s fun n => f n s := by
  unfold withInteger
  cases Argument.integer data with
  | ok n => exact hf n
  | error e => exact .answer ks (.error e)

theorem touches_setWithLifetime (key data : Bytes) (seconds : Int) :
    Touches now [keyOf key] fun s => setWithLifetime now key data s seconds := by
  unfold setWithLifetime
  by_cases hn : seconds < 0
  · simp only [if_pos hn]
    exact .answer _ _
  · simp only [if_neg hn, Keyspace.setWithLifetime]
    cases Keyspace.deadlineAfter now seconds with
    | ok d => exact .assign _ ⟨.string data, some d⟩ .ok
    | error e => exact .answer _ (.error e)

theorem run_touches {c : Command} (hc : c.isGlobal = false) (name : Text) (args : List Bytes) :
    Touches now (named args c) fun s => run now s name c args := by
  cases shape c args with
  | few lacking refused =>
    simp only [refused]
    exact .answer _ _
  | hello | pong | ping | echo | quit => exact .answer _ _
  | set key data => exact .assign (keyOf key) ⟨.string data, none⟩ .ok
  | setex key seconds data => exact touches_withInteger seconds fun n => touches_setWithLifetime key data n
  | del | exist => exact .visitEach _ _
  | expire key seconds => exact touches_withInteger seconds fun n => .trying _ _ _
  | lrange key start stop =>
    exact touches_withInteger start fun i => touches_withInteger stop fun j => .trying _ _ _
  | persist | type => exact .sure _ _ _
  | get | ttl | hset | hget | hmset | hmget | hdel | hexists | hkeys | hvals | hgetall | lpush | rpush | llen =>
    exact .trying _ _ _
  | keys | dbsize | flushdb | flushall => cases hc

end Dispatch

def told : Except Failure Reply → Except Fault Reply
  | .ok reply => .ok reply
  | .error (.refused e) => .ok (.error e.line)
  | .error (.fault f) => .error f

theorem dispatch_eq (now : Instant) (s : Keyspace) (r : Request) :
    dispatch now s r = (told (Dispatch.perform now s r).1, (Dispatch.perform now s r).2) := by
  unfold dispatch
  obtain ⟨x, t⟩ := Dispatch.perform now s r
  rcases x with (e | f) | reply <;> rfl

end RespStore
