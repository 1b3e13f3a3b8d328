import RespStore.Number.Numeral
import RespStore.Reply
import RespStore.Text.Utf8

/-!
Replies as a person reads them. The items of an array are numbered, the numbers end in one column,
and what belongs to an item stands to the right of its number.
-/

namespace RespStore

namespace Render

def spaces (n : Nat) : Text := List.replicate n (.char ' ')

def newline : Glyph := .char '\n'

def label (width i : Nat) : Text :=
  let n := Text.ofNat i
  spaces (width - n.length) ++ n ++ Text.ofString ") "

/-- Every item but the first begins a new line; a column before the first one is the first one. -/
def lead (indent : Int) (i : Nat) : Text := if 1 < i then newline :: spaces indent.toNat else []

end Render

open Render

mutual

/-- The text of a reply that is printed from column `indent` on. -/
def Reply.render (indent : Int) : Reply → Text
  | .status t => t
  | .error t => Text.ofString "(error) " ++ t
  -- Out of reach are numbers of more than `Numeral.maxDigits` digits, which could not be written: a reply that is
  -- printed has been read, and none is read with more.
  | .integer n => Text.ofString "(integer) " ++ Text.ofInt n
  | .null => Text.ofString "(nil)"
  | .bulk data => Text.ofString "\"" ++ Text.ofBytesEscaping data ++ Text.ofString "\""
  | .array [] => Text.ofString "(empty array)"
  | .array (r :: rs) => Reply.renderItems indent (Text.ofNat (rs.length + 1)).length 1 (r :: rs)

def Reply.renderItems (indent : Int) (width i : Nat) : List Reply → Text
  | [] => []
  | r :: rs =>
    lead indent i ++ label width i ++ r.render (indent + width + 2) ++
      Reply.renderItems indent width (i + 1) rs

end

end RespStore
