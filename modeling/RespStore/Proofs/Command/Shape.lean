import RespStore.Command.Dispatch

/-! The shapes in which a command finds its arguments: too few of them, or as many as it looks at and any more. -/

namespace RespStore.Dispatch

inductive Shape : Command → List Bytes → Prop
  | few {c : Command} {args : List Bytes} (lacking : c.admits args.length = false)
      (refused : ∀ now s name, run now s name c args = (.error (.refused (.wrongArity name)), s)) : Shape c args
  | hello (args : List Bytes) : Shape .hello args
  | pong : Shape .ping []
  | ping (data : Bytes) (more : List Bytes) : Shape .ping (data :: more)
  | echo (data : Bytes) (more : List Bytes) : Shape .echo (data :: more)
  | quit (args : List Bytes) : Shape .quit args
  | set (key data : Bytes) (more : List Bytes) : Shape .set (key :: data :: more)
  | setex (key seconds data : Bytes) (more : List Bytes) : Shape .setex (key :: seconds :: data :: more)
  | get (key : Bytes) (more : List Bytes) : Shape .get (key :: more)
  | del (keys : List Bytes) : Shape .del keys
  | exist (keys : List Bytes) : Shape .exist keys
  | expire (key seconds : Bytes) (more : List Bytes) : Shape .expire (key :: seconds :: more)
  | persist (key : Bytes) (more : List Bytes) : Shape .persist (key :: more)
  | ttl (key : Bytes) (more : List Bytes) : Shape .ttl (key :: more)
  | type (key : Bytes) (more : List Bytes) : Shape .type (key :: more)
  | keys (pattern : Bytes) (more : List Bytes) : Shape .keys (pattern :: more)
  | dbsize (args : List Bytes) : Shape .dbsize args
  | flushdb (args : List Bytes) : Shape .flushdb args
  | flushall (args : List Bytes) : Shape .flushall args
  | hset (key : Bytes) (kvs : List Bytes) : Shape .hset (key :: kvs)
  | hget (key field : Bytes) (more : List Bytes) : Shape .hget (key :: field :: more)
  | hmset (key : Bytes) (kvs : List Bytes) : Shape .hmset (key :: kvs)
  | hmget (key : Bytes) (fields : List Bytes) : Shape .hmget (key :: fields)
  | hdel (key : Bytes) (fields : List Bytes) : Shape .hdel (key :: fields)
  | hexists (key field : Bytes) (more : List Bytes) : Shape .hexists (key :: field :: more)
  | hkeys (key : Bytes) (more : List Bytes) : Shape .hkeys (key :: more)
  | hvals (key : Bytes) (more : List Bytes) : Shape .hvals (key :: more)
  | hgetall (key : Bytes) (more : List Bytes) : Shape .hgetall (key :: more)
  | lpush (key : Bytes) (data : List Bytes) : Shape .lpush (key :: data)
  | rpush (key : Bytes) (data : List Bytes) : Shape .rpush (key :: data)
  | llen (key : Bytes) (more : List Bytes) : Shape .llen (key :: more)
  | lrange (key start stop : Bytes) (more : List Bytes) : Shape .lrange (key :: start :: stop :: more)

theorem shape : (c : Command) → (args : List Bytes) → Shape c args
  | .hello, args => .hello args
  | .ping, [] => .pong
  | .ping, data :: more => .ping data more
  | .echo, data :: more => .echo data more
  | .quit, args => .quit args
  | .set, key :: data :: more => .set key data more
  | .setex, key :: seconds :: data :: more => .setex key seconds data more
  | .get, key :: more => .get key more
  | .del, keys => .del keys
  | .exist, keys => .exist keys
  | .expire, key :: seconds :: more => .expire key seconds more
  | .persist, key :: more => .persist key more
  | .ttl, key :: more => .ttl key more
  | .type, key :: more => .type key more
  | .keys, pattern :: more => .keys pattern more
  | .dbsize, args => .dbsize args
  | .flushdb, args => .flushdb args
  | .flushall, args => .flushall args
  | .hset, key :: kvs => .hset key kvs
  | .hget, key :: field :: more => .hget key field more
  | .hmset, key :: kvs => .hmset key kvs
  | .hmget, key :: fields => .hmget key fields
  | .hdel, key :: fields => .hdel key fields
  | .hexists, key :: field :: more => .hexists key field more
  | .hkeys, key :: more => .hkeys key more
  | .hvals, key :: more => .hvals key more
  | .hgetall, key :: more => .hgetall key more
  | .lpush, key :: data => .lpush key data
  | .rpush, key :: data => .rpush key data
  | .llen, key :: more => .llen key more
  | .lrange, key :: start :: stop :: more => .lrange key start stop more
  | .setex, [_, _] | .lrange, [_, _] | .set, [_] | .setex, [_] | .expire, [_] | .hget, [_] | .hexists, [_] | .lrange, [_]
  | .echo, [] | .set, [] | .setex, [] | .get, [] | .expire, [] | .persist, [] | .ttl, [] | .type, [] | .keys, []
  | .hset, [] | .hget, [] | .hmset, [] | .hmget, [] | .hdel, [] | .hexists, [] | .hkeys, [] | .hvals, [] | .hgetall, []
  | .lpush, [] | .rpush, [] | .llen, [] | .lrange, [] => .few rfl fun _ _ _ => rfl

end RespStore.Dispatch
