import RespStore.Command.Argument
import RespStore.Command.Arity
import RespStore.Keyspace.Hashes
import RespStore.Keyspace.Keys
import RespStore.Keyspace.Lists
import RespStore.Keyspace.Strings
import RespStore.Reply
import RespStore.Wire.Request

/-!
What each command does to the keyspace, and its reply. A request is refused before anything is done
if its name is unknown or its arguments are too few.
-/

namespace RespStore

namespace Reply

def ofTexts (ts : List Text) : Reply := .array (ts.map .ofText)

def ofBulks (bs : List Bytes) : Reply := .array (bs.map .bulk)

def ofFields (fs : Fields) : Reply := .array (fs.flatMap fun f => [.ofText f.1, .bulk f.2])

end Reply

namespace Dispatch

/-- What is left of the keyspace, whether or not there is a reply. -/
abbrev Outcome := Except Failure Reply × Keyspace

def sure {α : Type} (f : α → Reply) (r : α × Keyspace) : Outcome := (.ok (f r.1), r.2)

def trying {α : Type} (f : α → Reply) (r : Except Failure α × Keyspace) : Outcome := (r.1.map f, r.2)

def count (n : Nat) : Reply := .integer n

def keyOf (data : Bytes) : Text := .ofBytes data

def pairs : List Bytes → List (Text × Bytes)
  | field :: data :: r => (.ofBytes field, data) :: pairs r
  | _ => []

def kindLine : Option Kind → Reply
  | some kind => .status (.ofString kind.name)
  | none => .status (.ofString "none")

def withInteger (data : Bytes) (s : Keyspace) (f : Int → Outcome) : Outcome :=
  match Argument.integer data with
  | .ok n => f n
  | .error e => (.error e, s)

def setWithLifetime (now : Instant) (key data : Bytes) (s : Keyspace) (seconds : Int) : Outcome :=
  if seconds < 0 then (.error (.refused .invalidExpireTime), s)
  else trying (fun _ => .ok) (s.setWithLifetime now (keyOf key) data seconds)

/-- The arguments are as many as the command asks for; more than it looks at do no harm. -/
def run (now : Instant) (s : Keyspace) (name : Text) : Command → List Bytes → Outcome
  | .hello, _ => (.ok (.array [.status (.ofString "server")]), s)
  | .ping, [] => (.ok (.bulk (.ofString "PONG")), s)
  | .ping, data :: _ => (.ok (.bulk data), s)
  | .echo, data :: _ => (.ok (.bulk data), s)
  | .quit, _ => (.ok .ok, s)
  | .set, key :: data :: _ => (.ok .ok, s.set (keyOf key) data)
  | .setex, key :: seconds :: data :: _ => withInteger seconds s (setWithLifetime now key data s)
  | .get, key :: _ => trying .ofBytes? (s.get now (keyOf key))
  | .del, keys => sure count (s.delete now (keys.map keyOf))
  | .exist, keys => sure count (s.countExisting now (keys.map keyOf))
  | .expire, key :: seconds :: _ =>
    withInteger seconds s fun n => trying .ofBool (s.expire now (keyOf key) n)
  | .persist, key :: _ => sure .ofBool (s.persist now (keyOf key))
  | .ttl, key :: _ => trying .integer (s.timeToLive now (keyOf key))
  | .type, key :: _ => sure kindLine (s.typeOf now (keyOf key))
  | .keys, pattern :: _ => (.ok (.ofTexts (s.keysMatching now (.ofBytes pattern))), s)
  | .dbsize, _ => (.ok (count (s.size now)), s)
  | .flushdb, _ => (.ok .ok, s.flush)
  | .flushall, _ => (.ok .ok, s.flush)
  | .hset, key :: kvs => trying (fun _ => .integer 1) (s.putFields now (keyOf key) (pairs kvs))
  | .hget, key :: field :: _ => trying .ofBytes? (s.fieldValue now (keyOf key) (.ofBytes field))
  | .hmset, key :: kvs => trying (fun _ => .ok) (s.putFields now (keyOf key) (pairs kvs))
  | .hmget, key :: fields =>
    trying (fun vs => .array (vs.map .ofBytes?)) (s.fieldValues now (keyOf key) (fields.map .ofBytes))
  | .hdel, key :: fields => trying count (s.deleteFields now (keyOf key) (fields.map .ofBytes))
  | .hexists, key :: field :: _ => trying .ofBool (s.hasField now (keyOf key) (.ofBytes field))
  | .hkeys, key :: _ => trying (fun fs => .ofTexts fs.keys) (s.fields now (keyOf key))
  | .hvals, key :: _ => trying (fun fs => .ofBulks fs.values) (s.fields now (keyOf key))
  | .hgetall, key :: _ => trying .ofFields (s.fields now (keyOf key))
  | .lpush, key :: data => trying count (s.pushFront now (keyOf key) data)
  | .rpush, key :: data => trying count (s.pushBack now (keyOf key) data)
  | .llen, key :: _ => trying count (s.listLength now (keyOf key))
  | .lrange, key :: start :: stop :: _ =>
    withInteger start s fun i => withInteger stop s fun j =>
      trying .ofBulks (s.listRange now (keyOf key) i j)
  | _, _ => (.error (.refused (.wrongArity name)), s)

def perform (now : Instant) (s : Keyspace) (r : Request) : Outcome :=
  match Command.ofText? r.name with
  | none => (.error (.refused (.unknownCommand r.name)), s)
  | some c =>
    if c.admits r.args.length then run now s r.name c r.args
    else (.error (.refused (.wrongArity r.name)), s)

end Dispatch

/-- A refusal is a reply too; only a fault is none. -/
def dispatch (now : Instant) (s : Keyspace) (r : Request) : Except Fault Reply × Keyspace :=
  match Dispatch.perform now s r with
  | (.ok reply, s) => (.ok reply, s)
  | (.error (.refused e), s) => (.ok (.error e.line), s)
  | (.error (.fault f), s) => (.error f, s)

def internalError : Reply := .error (.ofString "ERR internal error")

def execute (now : Instant) (s : Keyspace) (r : Request) : Reply × Keyspace :=
  match dispatch now s r with
  | (.ok reply, s) => (reply, s)
  | (.error _, s) => (internalError, s)

end RespStore
