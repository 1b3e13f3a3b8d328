import RespStore.Client.Connection
import RespStore.Console.Line
import RespStore.Console.Render
import RespStore.Server.Basic

/-!
A console: lines typed by a person, requests sent over a connection to a server, replies printed. The
clock stands still, and the network may refuse a connection.
-/

namespace RespStore

structure Console where
  server : Server
  client : Client := {}
  link : Nat := 0
  refusals : List Bool := []

namespace Console

def refused : Text := .ofString "refused"

def printed (t : Text) : Text := t ++ .ofString "\n"

def connect (c : Console) : Bool × Text × Console :=
  if c.refusals.headD false then
    (false, Client.connectionError refused, { c with refusals := c.refusals.tail })
  else
    let (link, server) := c.server.accept
    (true, [], { c with server, link, client := c.client.connected, refusals := c.refusals.tail })

def disconnect (c : Console) : Console :=
  { c with
    server := if c.client.isConnected then c.server.disconnect c.link else c.server
    client := c.client.disconnect }

def send (now : Instant) (words : List Text) (c : Console) :
    Except Wire.DecodeError Reply × Console :=
  if c.client.isConnected then
    let (out, server) := c.server.deliver now c.link (Request.encode (words.map Text.toBytes))
    let (reply, client) := c.client.send (if out.isEmpty then [] else [.bytes out])
    (reply, { c with server, client })
  else
    let (reply, client) := c.client.send []
    (reply, { c with client })

def helpText : Text := .ofString "
Supported Commands:
-------------------
  PING [message]            HELLO              ECHO <message>
  SET <key> <value>         SETEX <key> <seconds> <value>
  GET <key>                 DEL <key> [key ...]
  EXISTS <key> [key ...]    EXPIRE <key> <seconds>
  TTL <key>                 PERSIST <key>      TYPE <key>
  KEYS <pattern>            DBSIZE             FLUSHDB / FLUSHALL
  HSET <key> <field> <value>                   HGET <key> <field>
  HMSET <key> <field> <value> [field value ...]
  HMGET <key> <field> [field ...]              HDEL <key> <field> [field ...]
  HEXISTS <key> <field>     HKEYS <key>        HVALS <key>
  HGETALL <key>
  LPUSH / RPUSH <key> <value> [value ...]      LLEN <key>
  LRANGE <key> <start> <stop>
  QUIT

Client Commands:
----------------
  help                      Show this help message
  exit                      Exit the client
  reconnect                 Reconnect to the server
"

def enter (now : Instant) (typed : Text) (c : Console) :
    Except Wire.DecodeError (Text × Option Console) :=
  match Line.ofText typed with
  | .blank => .ok ([], some c)
  | .help => .ok (printed helpText, some c)
  | .exit => .ok ([], none)
  | .reconnect =>
    let (connected, out, c) := c.disconnect.connect
    .ok (out ++ printed (.ofString (if connected then "Reconnected!" else "Reconnection failed.")), some c)
  | .faulty f => .ok (printed (Text.ofString "(error) Invalid argument(s): " ++ f.message), some c)
  | .request words =>
    match c.send now words with
    | (.error e, _) => .error e
    | (.ok reply, c) => .ok (printed (reply.render 0), if Line.isQuit words then none else some c)

/-- What is printed for each line in turn, and the fault that cut the session short, if one did. When
the lines end before the session does, a line is broken off. -/
def transcript (now : Instant) (c : Console) : List Text → List Text × Option Wire.DecodeError
  | [] => ([printed []], none)
  | line :: lines =>
    match c.enter now line with
    | .error e => ([[]], some e)
    | .ok (out, none) => ([out], none)
    | .ok (out, some c) =>
      let (outs, fault) := transcript now c lines
      (out :: outs, fault)

def notConnected (port : Text) : Text :=
  Text.ofString "Failed to connect. Is the server running?\n  Try: python -m embedded_redis.server --port "
    ++ printed port

def prompt (host port : Text) : Text := host ++ Text.ofString ":" ++ port ++ Text.ofString "> "

end Console

end RespStore
