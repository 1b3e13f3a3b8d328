import RespStore.Number.Numeral
import RespStore.ReplyError
import RespStore.Wire.Fault

/-!
The ways an operation fails. A refusal is an answer to the client in words of its own; a fault is
not, and the client only learns that there was one.
-/

namespace RespStore

inductive Fault where
  | numeralTooLong (digits : Nat)
  | negativeLifetime
  | lifetimeTooLarge
  | remainderInfinite
  | remainderUndefined
deriving DecidableEq

inductive Failure where
  | refused (e : ReplyError)
  | fault (f : Fault)
deriving DecidableEq

def Fault.message : Fault → Text
  | numeralTooLong digits => Numeral.tooLongMessage digits
  | negativeLifetime => .ofString "ttl must be non-negative"
  | lifetimeTooLarge => .ofString "int too large to convert to float"
  | remainderInfinite => .ofString "cannot convert float infinity to integer"
  | remainderUndefined => .ofString "cannot convert float NaN to integer"

end RespStore
