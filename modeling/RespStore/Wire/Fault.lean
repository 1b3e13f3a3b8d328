import RespStore.Number.Numeral
import RespStore.ReplyError
import RespStore.Text.Quoted

/-!
What can be wrong with a byte stream. A numeral too long to read stands apart: it is refused, but
not as a fault of the protocol.
-/

namespace RespStore.Wire

inductive ProtocolFault where
  | multibulkLength
  | bulkLength
  | integer
  | bulkExpected (got : UInt8)
  | bulkUnterminated
  | inlineTooBig
  | headerTooBig
  | unknownType (byte : UInt8)
deriving DecidableEq

inductive DecodeError where
  | protocol (fault : ProtocolFault)
  | numeralTooLong (digits : Nat)
deriving DecidableEq

namespace ProtocolFault

def detail : ProtocolFault → Text
  | multibulkLength => .ofString "invalid multibulk length"
  | bulkLength => .ofString "invalid bulk length"
  | integer => .ofString "invalid integer"
  | bulkExpected got =>
    Text.ofString "expected '$', got '" ++ Text.ofChars [.ofNat got.toNat] ++ Text.ofString "'"
  | bulkUnterminated => .ofString "bulk string not terminated by CRLF"
  | inlineTooBig => .ofString "too big inline request"
  | headerTooBig => .ofString "too big header line"
  | unknownType b => Text.ofString "unexpected type byte " ++ Text.ofChars (Quoted.bytes [b])

def error (f : ProtocolFault) : ReplyError := .protocol f.detail

end ProtocolFault

def DecodeError.isTooBig : DecodeError → Bool
  | .protocol .inlineTooBig => true
  | .protocol .headerTooBig => true
  | _ => false

end RespStore.Wire

namespace RespStore.Numeral

def tooLongMessage (digits : Nat) : Text :=
  Text.ofString "Exceeds the limit (" ++ Text.ofNat maxDigits ++
    Text.ofString " digits) for integer string conversion: value has " ++ Text.ofNat digits ++
    Text.ofString " digits; use sys.set_int_max_str_digits() to increase the limit"

end RespStore.Numeral
