import RespStore.Proofs.Command.Locality
import RespStore.Proofs.Keyspace.Reading

/-! What a request leaves alone. Short of emptying the keyspace, no request changes an entry of a key that it does not
name; and one that only asks takes away expired entries of its keys at most, which nobody could see any more. -/

namespace RespStore

open Keyspace

namespace Command

def isReading : Command → Bool
  | get | exist | ttl | type | keys | dbsize | hget | hmget | hexists | hkeys | hvals | hgetall | llen | lrange
  | ping | echo | hello | quit => true
  | _ => false

def isFlush : Command → Bool
  | flushdb | flushall => true
  | _ => false

theorem isReading_of_isGlobal {c : Command} (hc : c.isGlobal = true) (hflush : c.isFlush = false) :
    c.isReading = true := by
  cases c with
  | keys | dbsize => rfl
  | flushdb | flushall => cases hflush
  | _ => cases hc

end Command

namespace Request

def isReading (r : Request) : Bool := r.command?.any (·.isReading)

def isFlush (r : Request) : Bool := r.command?.any (·.isFlush)

theorem isReading_of_isGlobal {r : Request} (hr : r.isGlobal = true) (hflush : r.isFlush = false) :
    r.isReading = true := by
  unfold isGlobal at hr
  unfold isFlush at hflush
  unfold isReading
  cases hc : r.command? with
  | none =>
    rw [hc] at hr
    cases hr
  | some c =>
    rw [hc] at hr hflush
    exact Command.isReading_of_isGlobal hr hflush

end Request

namespace Dispatch

inductive Looks (now : Instant) : List Text → (Keyspace → Outcome) → Prop
  | answer (ks : List Text) (f : Keyspace → Except Failure Reply) : Looks now ks fun s => (f s, s)
  | visit (k : Text) {f : Option Entry → Except Failure Reply × Change} (hf : ∀ x, (f x).2 = .keep) :
    Looks now [k] fun s => s.visit now k f
  | visitEach (ks : List Text) {f : Option Entry → Nat × Change} (hf : ∀ x, (f x).2 = .keep) :
    Looks now ks fun s => sure count (s.visitEach now f ks)

variable {α : Type} {now : Instant} {ks : List Text} {k : Text} {op : Keyspace → Outcome}

theorem Looks.trimmed (ho : Looks now ks op) (s : Keyspace) : Trimmed now ks s (op s).2 := by
  cases ho with
  | answer ks f => exact .refl now ks s
  | visit k hf => exact trimmed_visit hf k s
  | visitEach ks hf => exact trimmed_visitEach hf ks s

theorem looks_trying {f : Option Entry → Except Failure α × Change} (hf : ∀ x, (f x).2 = .keep) (g : α → Reply) :
    Looks now [k] fun s => trying g (s.visit now k f) := .visit k (f := fun x => ((f x).1.map g, (f x).2)) hf

theorem looks_readFields (f : Fields → α) (g : α → Reply) :
    Looks now [k] fun s => trying g (s.readFields now k f) := looks_trying (fun _ => rfl) g

theorem looks_readItems (f : List Bytes → α) (g : α → Reply) :
    Looks now [k] fun s => trying g (s.readItems now k f) := looks_trying (fun _ => rfl) g

theorem looks_typeOf (g : Option Kind → Reply) : Looks now [k] fun s => sure g (s.typeOf now k) :=
  .visit k (f := fun x => (.ok (g (x.map (·.value.kind))), .keep)) fun _ => rfl

theorem looks_withInteger (data : Bytes) {f : Int → Keyspace → Outcome} (hf : ∀ n, Looks now ks (f n)) :
    Looks now ks fun s => withInteger data s fun n => f n s := by
  unfold withInteger
  cases Argument.integer data with
  | ok n => exact hf n
  | error e => exact .answer ks fun _ => .error e

theorem run_looks {c : Command} (hc : c.isReading = true) (name : Text) (args : List Bytes) :
    Looks now (named args c) fun s => run now s name c args := by
  cases shape c args with
  | few lacking refused =>
    simp only [refused]
    exact .answer _ fun _ => .error _
  | hello | quit | pong => exact .answer _ fun _ => .ok _
  | ping data | echo data => exact .answer _ fun _ => .ok (.bulk data)
  | dbsize => exact .answer _ fun s => .ok (count (s.size now))
  | keys pattern => exact .answer _ fun s => .ok (.ofTexts (s.keysMatching now (.ofBytes pattern)))
  | exist => exact .visitEach _ fun x => by cases x <;> rfl
  | get => exact looks_trying (by rintro (_ | ⟨_ | _ | _, d⟩) <;> rfl) _
  | ttl => exact looks_trying (by rintro (_ | ⟨v, _ | d⟩) <;> rfl) _
  | type => exact looks_typeOf kindLine
  | hget | hexists | hmget | hkeys | hvals | hgetall => exact looks_readFields _ _
  | llen => exact looks_readItems _ _
  | lrange key start stop =>
    exact looks_withInteger start fun i => looks_withInteger stop fun j => looks_readItems (window i j) _
  | _ => cases hc

theorem perform_looks {r : Request} (hr : r.isReading = true) :
    Looks now (r.keyArguments.map keyOf) fun s => perform now s r := by
  unfold perform Request.keyArguments
  unfold Request.isReading at hr
  unfold Request.command? at *
  cases hc : Command.ofText? r.name with
  | none => exact .answer _ fun _ => .error _
  | some c =>
    rw [hc] at hr
    by_cases ha : c.admits r.args.length = true
    · simp only [if_pos ha]
      have hrun : Looks now (named r.args c) fun s => run now s r.name c r.args := run_looks hr r.name r.args
      rw [named_eq] at hrun
      exact hrun
    · simp only [if_neg ha]
      exact .answer _ fun _ => .error _

theorem find?_perform_of_not_named {r : Request} (hr : r.isFlush = false) (hk : k ∉ r.keyArguments.map keyOf)
    (s : Keyspace) : (perform now s r).2.find? k = s.find? k := by
  cases hglobal : r.isGlobal with
  | false => exact (perform_touches hglobal).find?_of_not_mem hk s
  | true =>
    have hreading : r.isReading = true := Request.isReading_of_isGlobal hglobal hr
    have htrimmed : Trimmed now (r.keyArguments.map keyOf) s (perform now s r).2 := (perform_looks hreading).trimmed s
    exact (htrimmed.find? k).resolve_right fun h => hk h.1

end Dispatch

open Dispatch

/-- Whatever is under a key that a request does not name stays there as it is, expired or not; and a request that only
asks leaves every live entry as it is and takes none away but expired ones of the keys it names. -/
theorem only_named_touched (now : Instant) (s : Keyspace) {r : Request} (hr : r.isFlush = false) :
    (∀ k ∉ r.keyArguments.map keyOf, (dispatch now s r).2.find? k = s.find? k) ∧
      (r.isReading = true → Trimmed now (r.keyArguments.map keyOf) s (dispatch now s r).2 ∧
        ∀ k, (dispatch now s r).2.live? now k = s.live? now k) := by
  rw [dispatch_eq]
  constructor
  · intro k hk
    exact find?_perform_of_not_named hr hk s
  · intro hreading
    have htrimmed : Trimmed now (r.keyArguments.map keyOf) s (perform now s r).2 := (perform_looks hreading).trimmed s
    exact ⟨htrimmed, htrimmed.live?⟩

def stale : Keyspace :=
  [(.ofString "a", ⟨.string [1], some .zero⟩), (.ofString "l", ⟨.list [[2]], none⟩),
    (.ofString "b", ⟨.string [3], some .zero⟩)]

theorem only_named_touched_stale :
    let r : Request := ⟨.ofString "EXISTS", [[97], [108]]⟩
    (dispatch .zero stale r).2.find? (.ofString "b") = some ⟨.string [3], some .zero⟩ ∧
      (dispatch .zero stale r).2.find? (.ofString "a") = none ∧ r.isReading = true ∧
      Trimmed .zero [.ofString "a", .ofString "l"] stale (dispatch .zero stale r).2 := by
  have hflush : Request.isFlush ⟨.ofString "EXISTS", [[97], [108]]⟩ = false := by decide
  have hreading : Request.isReading ⟨.ofString "EXISTS", [[97], [108]]⟩ = true := by decide
  have hnamed : (Request.mk (.ofString "EXISTS") [[97], [108]]).keyArguments.map keyOf =
      [.ofString "a", .ofString "l"] := by decide +kernel
  obtain ⟨hframe, hread⟩ := only_named_touched .zero stale hflush
  rw [hnamed] at hframe hread
  exact ⟨hframe (.ofString "b") (by decide), by decide +kernel, hreading, (hread hreading).1⟩

end RespStore
