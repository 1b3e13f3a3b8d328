import RespStore.Text.LowerCaseTable

/-!
Lower case of a whole text. Only the dotted capital I has two characters; a sigma that ends a word
takes its final shape.
-/

namespace RespStore

namespace LowerCase

def ofChar (c : Char) : List Char :=
  if c = '\u0130' then ['i', '\u0307']
  else match runs.find? fun r => r.first ≤ c.toNat && c.toNat ≤ r.last && (c.toNat - r.first) % r.step = 0 with
    | some r => [.ofNat (c.toNat + r.shift).toNat]
    | none => [c]

def isCased : Glyph → Bool
  | .char c => cased.has c
  | .stray _ => false

def isIgnorable : Glyph → Bool
  | .char c => ignorable.has c
  | .stray _ => false

def inWord (t : Text) : Bool :=
  match t.dropWhile isIgnorable with
  | [] => false
  | g :: _ => isCased g

def ofText (after : Bool) : Text → Text
  | [] => []
  | g :: r =>
    let low : Text := match g with
      | .stray b => [.stray b]
      | .char c =>
        if c = '\u03A3' then [.char (if after && !inWord r then '\u03C2' else '\u03C3')]
        else .ofChars (ofChar c)
    low ++ ofText (if isIgnorable g then after else isCased g) r

end LowerCase

def Text.toLower (t : Text) : Text := LowerCase.ofText false t

end RespStore
