import RespStore.Text.UpperCase

/-!
The commands, each with the name it goes by. A name is known whatever its case.
-/

namespace RespStore

inductive Command where
  | hello | ping | echo | quit
  | set | setex | get | del | exist | expire | persist | ttl | type | keys | dbsize | flushdb | flushall
  | hset | hget | hmset | hmget | hdel | hexists | hkeys | hvals | hgetall
  | lpush | rpush | llen | lrange
deriving DecidableEq

namespace Command

def name : Command → String
  | hello => "HELLO"
  | ping => "PING"
  | echo => "ECHO"
  | quit => "QUIT"
  | set => "SET"
  | setex => "SETEX"
  | get => "GET"
  | del => "DEL"
  | exist => "EXISTS"
  | expire => "EXPIRE"
  | persist => "PERSIST"
  | ttl => "TTL"
  | type => "TYPE"
  | keys => "KEYS"
  | dbsize => "DBSIZE"
  | flushdb => "FLUSHDB"
  | flushall => "FLUSHALL"
  | hset => "HSET"
  | hget => "HGET"
  | hmset => "HMSET"
  | hmget => "HMGET"
  | hdel => "HDEL"
  | hexists => "HEXISTS"
  | hkeys => "HKEYS"
  | hvals => "HVALS"
  | hgetall => "HGETALL"
  | lpush => "LPUSH"
  | rpush => "RPUSH"
  | llen => "LLEN"
  | lrange => "LRANGE"

def all : List Command :=
  [hello, ping, echo, quit, set, setex, get, del, exist, expire, persist, ttl, type, keys, dbsize,
    flushdb, flushall, hset, hget, hmset, hmget, hdel, hexists, hkeys, hvals, hgetall, lpush, rpush,
    llen, lrange]

def ofText? (t : Text) : Option Command :=
  match t.toUpperAscii? with
  | some cs => all.find? fun c => c.name.toList = cs
  | none => none

theorem ofText?_name (c : Command) : ofText? (.ofString c.name) = some c := by cases c <;> decide

end Command

end RespStore
