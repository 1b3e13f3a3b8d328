import RespStore.Client.Part
import RespStore.Wire.ReplyReader

/-!
The client's end of a connection. What is yet to arrive on its socket is a list of deliveries; the
end of the list is the end of the stream.
-/

namespace RespStore

inductive Delivery where
  | bytes (data : Bytes)
  | timeout
  | failure (reason : Text)

structure Client where
  arriving : Option (List Delivery) := none
  decoder : Wire.Decoder := {}

namespace Client

def readSize : Nat := 4096

def isConnected (c : Client) : Bool := c.arriving.isSome

def connected (c : Client) : Client := { c with arriving := some [] }

def disconnect (c : Client) : Client := ⟨none, c.decoder.reset⟩

def split : Delivery → List Delivery
  | .bytes (b :: r) => (Pieces.chunks readSize (b :: r)).map .bytes
  | d => [d]

def notConnected : Reply := .error (.ofString "ERR not connected")

def closedByServer : Reply := .error (.ofString "ERR connection closed by server")

def timedOut : Reply := .error (.ofString "ERR request timed out")

def failed (reason : Text) : Reply := .error (Text.ofString "ERR " ++ reason)

def await (d : Wire.Decoder) (queue : List Delivery) : Except Wire.DecodeError Reply × Client :=
  match d.nextReply with
  | (.ok (some r), d) => (.ok r, ⟨some queue, d⟩)
  | (.error e, d) => (.error e, ⟨some queue, d⟩)
  | (.ok none, d) => match queue with
    | [] => (.ok closedByServer, disconnect ⟨none, d⟩)
    | .bytes [] :: _ => (.ok closedByServer, disconnect ⟨none, d⟩)
    | .bytes data :: rest => await (d.feed data) rest
    | .timeout :: rest => (.ok timedOut, ⟨some rest, d⟩)
    | .failure reason :: rest => (.ok (failed reason), ⟨some rest, d⟩)

def send (deliveries : List Delivery) (c : Client) : Except Wire.DecodeError Reply × Client :=
  match c.arriving with
  | none => (.ok notConnected, c)
  | some queue => await c.decoder (queue ++ deliveries.flatMap split)

def connectionError (reason : Text) : Text :=
  Text.ofString "Connection error: " ++ reason ++ Text.ofString "\n"

end Client

end RespStore
