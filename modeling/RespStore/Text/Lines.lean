import RespStore.Pieces
import RespStore.Text.Basic

/-!
The lines of a text. Every character that breaks lines in some script ends one, and a carriage return
and the line feed after it end it together. What follows the last line end is a line unless it is
empty.
-/

namespace RespStore

/-- Line feed to carriage return, three of the information separators, and the line ends beyond
ASCII. -/
def endsLine (c : Char) : Bool :=
  (10 ≤ c.toNat && c.toNat ≤ 13) || (0x1C ≤ c.toNat && c.toNat ≤ 0x1E) || c.toNat = 0x85 ||
    c.toNat = 0x2028 || c.toNat = 0x2029

def Glyph.endsLine : Glyph → Bool
  | char c => RespStore.endsLine c
  | stray _ => false

namespace Text

def joinLineEnds : Text → Text
  | [] => []
  | .char '\r' :: .char '\n' :: r => .char '\r' :: joinLineEnds r
  | g :: r => g :: joinLineEnds r

def lines (t : Text) : List Text :=
  let ps := Pieces.split Glyph.endsLine t.joinLineEnds
  if ps.getLast? = some [] then ps.dropLast else ps

end Text

end RespStore
