import RespStore.Command.Name

/-!
How many arguments a command takes: at least so many, and where fields are set, a key and then pairs.
-/

namespace RespStore.Command

def leastArguments : Command → Nat
  | hello | ping | quit | dbsize | flushdb | flushall => 0
  | echo | get | del | exist | persist | ttl | type | keys | hkeys | hvals | hgetall | llen => 1
  | set | expire | hget | hmget | hdel | hexists | lpush | rpush => 2
  | setex | hset | hmset | lrange => 3

def takesPairs : Command → Bool
  | hset | hmset => true
  | _ => false

def admits (c : Command) (n : Nat) : Bool := c.leastArguments ≤ n && (!c.takesPairs || n % 2 = 1)

end RespStore.Command
