import RespStore.Text.Basic

/-!
Upper case, as far as it is ASCII. Ten characters outside ASCII have an upper case within it, the
sharp s, the dotless i, the long s and seven ligatures; so a plain name can be spelt with them.
-/

namespace RespStore

namespace UpperCase

def ofChar? (c : Char) : Option (List Char) :=
  if c.toNat < 0x80 then some [c.toUpper]
  else match c with
    | '\u00DF' => some ['S', 'S']
    | '\u0131' => some ['I']
    | '\u017F' => some ['S']
    | '\uFB00' => some ['F', 'F']
    | '\uFB01' => some ['F', 'I']
    | '\uFB02' => some ['F', 'L']
    | '\uFB03' => some ['F', 'F', 'I']
    | '\uFB04' => some ['F', 'F', 'L']
    | '\uFB05' => some ['S', 'T']
    | '\uFB06' => some ['S', 'T']
    | _ => none

def ofGlyph? : Glyph → Option (List Char)
  | .char c => ofChar? c
  | .stray _ => none

end UpperCase

def Text.toUpperAscii? (t : Text) : Option (List Char) :=
  (t.mapM UpperCase.ofGlyph?).map List.flatten

end RespStore
