import RespStore.Number.Numeral
import RespStore.Reply
import RespStore.Wire.Request

/-!
Replies and requests in bytes. Every line break inside a status or an error becomes a space, so
that no text can end its own line.
-/

namespace RespStore

namespace Wire

def flatten : Glyph → Glyph
  | .char c => if c = '\r' ∨ c = '\n' then .char ' ' else .char c
  | .stray b => .stray b

def oneLine (t : Text) : Text := t.map flatten

def lineOf (mark : UInt8) (content : Bytes) : Bytes := mark :: content ++ crlf

def bulkOf (data : Bytes) : Bytes := lineOf bulkMark (Numeral.ofNat data.length) ++ data ++ crlf

def arrayHeader (n : Nat) : Bytes := lineOf starMark (Numeral.ofNat n)

def statusMark : UInt8 := 43

def errorMark : UInt8 := 45

def integerMark : UInt8 := 58

def nullBulk : Bytes := lineOf bulkMark (Numeral.ofInt (-1))

end Wire

open Wire

mutual

def Reply.toBytes : Reply → Bytes
  | .status t => lineOf statusMark (oneLine t).toBytes
  | .error t => lineOf errorMark (oneLine t).toBytes
  -- Out of reach are numbers of more than `Numeral.maxDigits` digits, which could not be written: every number sent
  -- is a count, or the seconds of a double.
  | .integer n => lineOf integerMark (Numeral.ofInt n)
  | .bulk data => bulkOf data
  | .null => nullBulk
  | .array items => arrayHeader items.length ++ Reply.listToBytes items

def Reply.listToBytes : List Reply → Bytes
  | [] => []
  | r :: rs => r.toBytes ++ Reply.listToBytes rs

end

theorem Reply.listToBytes_append (rs ss : List Reply) :
    Reply.listToBytes (rs ++ ss) = Reply.listToBytes rs ++ Reply.listToBytes ss := by
  induction rs with
  | nil => rfl
  | cons r rs ih => simp [Reply.listToBytes, ih]

def Request.encode (parts : List Bytes) : Bytes := (Reply.array (parts.map .bulk)).toBytes

end RespStore
