import RespStore.Text.Basic

/-!
Blanks. The spaces of all scripts part a text; the four information separators do so too, except
around a number.
-/

namespace RespStore

def isSpace (c : Char) : Bool :=
  (9 ≤ c.toNat && c.toNat ≤ 13) || c.toNat = 0x20 || c.toNat = 0x85 || c.toNat = 0xA0 ||
    c.toNat = 0x1680 || (0x2000 ≤ c.toNat && c.toNat ≤ 0x200A) || c.toNat = 0x2028 ||
    c.toNat = 0x2029 || c.toNat = 0x202F || c.toNat = 0x205F || c.toNat = 0x3000

def isBlank (c : Char) : Bool := isSpace c || (0x1C ≤ c.toNat && c.toNat ≤ 0x1F)

def Glyph.isBlank : Glyph → Bool
  | char c => RespStore.isBlank c
  | stray _ => false

namespace Text

def trimWith (p : Glyph → Bool) (t : Text) : Text := ((t.dropWhile p).reverse.dropWhile p).reverse

def trim (t : Text) : Text := t.trimWith Glyph.isBlank

end Text

end RespStore
