import RespStore.Number.Shortest
import RespStore.Wire.Encoding

/-!
The parts a client makes a request of. All of them are sent as bytes.
-/

namespace RespStore

inductive Part where
  | bytes (data : Bytes)
  | text (t : Text)
  | integer (n : Int)
  | real (x : Binary64)

def Part.toBytes : Part → Bytes
  | bytes data => data
  | text t => t.toBytes
  | integer n => Numeral.ofInt n
  | real x => (Text.ofChars x.toChars).toBytes

def Request.encodeParts (parts : List Part) : Bytes := Request.encode (parts.map Part.toBytes)

end RespStore
