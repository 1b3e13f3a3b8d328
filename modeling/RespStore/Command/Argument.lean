import RespStore.Failure

/-!
Arguments that stand for numbers: decimal numerals within 64 bits.
-/

namespace RespStore.Argument

def least : Int := -(2 ^ 63)

def greatest : Int := 2 ^ 63 - 1

def integer (data : Bytes) : Except Failure Int :=
  match Numeral.read data with
  | .error .malformed => .error (.refused .notAnInteger)
  | .error (.tooLong digits) => .error (.fault (.numeralTooLong digits))
  | .ok n => if least ≤ n ∧ n ≤ greatest then .ok n else .error (.refused .notAnInteger)

end RespStore.Argument
