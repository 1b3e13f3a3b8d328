import RespStore.Proofs.Command.Touch
import RespStore.Proofs.Keyspace.Every
import RespStore.Proofs.Keyspace.Operation
import RespStore.Proofs.Number.Spelling

/-! The course of a request. It is refused, or stopped by a numeral that is never read, or answered outright, or
it asks the keyspace for one thing and answers with what that gives. -/

namespace RespStore

open Keyspace Numeral

namespace Argument

theorem integer_toBytes (w : Spelling) :
    integer w.toBytes =
      if w.IsLong then .error (.fault (.numeralTooLong w.digits.length))
      else if least ≤ w.number ∧ w.number ≤ greatest then .ok w.number
      else .error (.refused .notAnInteger) := by
  rw [integer, read_toBytes]
  by_cases hw : w.IsLong
  · rw [if_pos hw, if_pos hw]
  · rw [if_neg hw, if_neg hw]

theorem integer_of_overlong {n : Nat} {data : Bytes} (h : Overlong n data) :
    integer data = .error (.fault (.numeralTooLong n)) := by
  rw [integer, read_eq_tooLong_iff.mpr h]

theorem integer_of_unwritten {data : Bytes} (h : ∀ w : Spelling, w.toBytes ≠ data) :
    integer data = .error (.refused .notAnInteger) := by
  rw [integer, read_eq_malformed_iff.mpr h]

end Argument

def Command.numerals (args : List Bytes) : Command → List Bytes
  | setex | expire => (args.drop 1).take 1
  | lrange => (args.drop 1).take 2
  | _ => []

def Request.numerals (r : Request) : List Bytes := (r.command?.map fun c => c.numerals r.args).getD []

namespace Reply

theorem isError_ofBytes? (data : Option Bytes) : (ofBytes? data).isError = false := by cases data <;> rfl

end Reply

namespace Dispatch

theorem isError_kindLine (k : Option Kind) : (kindLine k).isError = false := by cases k <;> rfl

theorem pairs_ne_nil {kvs : List Bytes} (h : 2 ≤ kvs.length) : pairs kvs ≠ [] := by
  match kvs, h with
  | field :: data :: r, _ => exact List.cons_ne_nil _ _

/-- What a request can come to, given the arguments that it has read as numbers. -/
inductive Course (now : Instant) (s : Keyspace) (numerals : List Bytes) : Outcome → Prop
  | refuse (e : ReplyError) : Course now s numerals (.error (.refused e), s)
  | tooLong {n : Nat} {data : Bytes} : Overlong n data → data ∈ numerals →
      Course now s numerals (.error (.fault (.numeralTooLong n)), s)
  | answer (reply : Reply) : reply.isError = false → Course now s numerals (.ok reply, s)
  | operate {α : Type} (o : Operation α) (f : α → Reply) : o.Admissible → (∀ a, (f a).isError = false) →
      Course now s numerals (trying f (o.call now s))

variable {now : Instant} {s : Keyspace} {numerals : List Bytes}

theorem course_withInteger {data : Bytes} (hm : data ∈ numerals) {f : Int → Outcome}
    (hf : ∀ n, n ≤ Argument.greatest → Course now s numerals (f n)) :
    Course now s numerals (withInteger data s f) := by
  unfold withInteger
  by_cases hw : ∃ w : Spelling, w.toBytes = data
  · obtain ⟨w, rfl⟩ := hw
    rw [Argument.integer_toBytes]
    by_cases hlong : w.IsLong
    · rw [if_pos hlong]
      exact .tooLong ⟨w, hlong, rfl, rfl⟩ hm
    · rw [if_neg hlong]
      by_cases hn : Argument.least ≤ w.number ∧ w.number ≤ Argument.greatest
      · rw [if_pos hn]
        exact hf _ hn.2
      · rw [if_neg hn]
        exact .refuse _
  · rw [Argument.integer_of_unwritten (not_exists.mp hw)]
    exact .refuse _

theorem course_setWithLifetime (key data : Bytes) {seconds : Int} (hn : seconds ≤ Argument.greatest) :
    Course now s numerals (setWithLifetime now key data s seconds) := by
  unfold setWithLifetime
  split
  · exact .refuse _
  · have ho : (Operation.setWithLifetime (keyOf key) data seconds).Admissible := ⟨by omega, hn⟩
    exact .operate _ (fun _ => .ok) ho fun _ => rfl

theorem run_course {name : Text} {c : Command} {args : List Bytes} (hc : c.admits args.length = true) :
    Course now s (c.numerals args) (run now s name c args) := by
  cases shape c args with
  | few lacking refused =>
    rw [refused]
    exact .refuse _
  | hello | pong | ping | echo | quit => exact .answer _ rfl
  | dbsize => exact .operate .size count trivial fun _ => rfl
  | flushdb | flushall => exact .operate .flush (fun _ => .ok) trivial fun _ => rfl
  | del => exact .operate (.delete (args.map keyOf)) count trivial fun _ => rfl
  | exist => exact .operate (.countExisting (args.map keyOf)) count trivial fun _ => rfl
  | keys pattern => exact .operate (.keysMatching (.ofBytes pattern)) .ofTexts trivial fun _ => rfl
  | set key data => exact .operate (.set (keyOf key) data) (fun _ => .ok) trivial fun _ => rfl
  | setex key seconds data =>
    exact course_withInteger List.mem_cons_self fun n hn => course_setWithLifetime key data hn
  | expire key seconds =>
    refine course_withInteger List.mem_cons_self fun n hn => ?_
    exact .operate (.expire (keyOf key) n) .ofBool hn fun _ => rfl
  | lrange key start stop =>
    refine course_withInteger List.mem_cons_self fun i _ => ?_
    refine course_withInteger (List.mem_cons_of_mem _ List.mem_cons_self) fun j _ => ?_
    exact .operate (.listRange (keyOf key) i j) .ofBulks trivial fun _ => rfl
  | persist key => exact .operate (.persist (keyOf key)) .ofBool trivial fun _ => rfl
  | type key => exact .operate (.typeOf (keyOf key)) kindLine trivial isError_kindLine
  | get key => exact .operate (.get (keyOf key)) .ofBytes? trivial Reply.isError_ofBytes?
  | ttl key => exact .operate (.timeToLive (keyOf key)) .integer trivial fun _ => rfl
  | hset key kvs =>
    have hk : 2 ≤ kvs.length := by simp_all [Command.admits, Command.leastArguments]
    exact .operate (.putFields (keyOf key) (pairs kvs)) (fun _ => .integer 1) (pairs_ne_nil hk) fun _ => rfl
  | hmset key kvs =>
    have hk : 2 ≤ kvs.length := by simp_all [Command.admits, Command.leastArguments]
    exact .operate (.putFields (keyOf key) (pairs kvs)) (fun _ => .ok) (pairs_ne_nil hk) fun _ => rfl
  | hget key field =>
    exact .operate (.fieldValue (keyOf key) (.ofBytes field)) .ofBytes? trivial Reply.isError_ofBytes?
  | hmget key fields =>
    exact .operate (.fieldValues (keyOf key) (fields.map .ofBytes)) (fun vs => .array (vs.map .ofBytes?)) trivial
      fun _ => rfl
  | hdel key fields => exact .operate (.deleteFields (keyOf key) (fields.map .ofBytes)) count trivial fun _ => rfl
  | hexists key field => exact .operate (.hasField (keyOf key) (.ofBytes field)) .ofBool trivial fun _ => rfl
  | hkeys key => exact .operate (.fields (keyOf key)) (fun fs => .ofTexts fs.keys) trivial fun _ => rfl
  | hvals key => exact .operate (.fields (keyOf key)) (fun fs => .ofBulks fs.values) trivial fun _ => rfl
  | hgetall key => exact .operate (.fields (keyOf key)) .ofFields trivial fun _ => rfl
  | lpush key data => exact .operate (.pushFront (keyOf key) data) count trivial fun _ => rfl
  | rpush key data => exact .operate (.pushBack (keyOf key) data) count trivial fun _ => rfl
  | llen key => exact .operate (.listLength (keyOf key)) count trivial fun _ => rfl

theorem perform_course (now : Instant) (s : Keyspace) (r : Request) :
    Course now s r.numerals (perform now s r) := by
  unfold perform Request.numerals Request.command?
  cases Command.ofText? r.name with
  | none => exact .refuse _
  | some c =>
    dsimp only
    split
    · rename_i hc
      exact run_course hc
    · exact .refuse _

end Dispatch

end RespStore
