import RespStore.Text.Basic

/-!
A typed line cut into words. Quotes keep blanks in a word; a backslash keeps the next character, and
within double quotes it does so only before another backslash or a double quote.
-/

namespace RespStore.Words

inductive Fault where
  | noClosingQuote
  | noEscapedCharacter
deriving DecidableEq

def Fault.message : Fault → Text
  | noClosingQuote => .ofString "No closing quotation"
  | noEscapedCharacter => .ofString "No escaped character"

def backslash : Glyph := .char '\\'

def doubleQuote : Glyph := .char '"'

def isQuote (g : Glyph) : Bool := g = .char '\'' || g = doubleQuote

def isBlank (g : Glyph) : Bool := g = .char ' ' || g = .char '\t' || g = .char '\r' || g = .char '\n'

inductive Place where
  | plain
  | quoted (quote : Glyph)
  | escaped (quote : Option Glyph)

def Place.back : Option Glyph → Place
  | none => plain
  | some q => quoted q

def escapedPart (quote : Option Glyph) (g : Glyph) : Text :=
  match quote with
  | none => [g]
  | some q => if g = backslash ∨ g = q then [g] else [g, backslash]

def finish (done : List Text) : Option Text → List Text
  | none => done
  | some w => w.reverse :: done

/-- Words that are done and the glyphs of the word under way have the latest first. -/
def scan (done : List Text) (word : Option Text) : Place → Text → Except Fault (List Text)
  | .plain, [] => .ok (finish done word).reverse
  | .quoted _, [] => .error .noClosingQuote
  | .escaped _, [] => .error .noEscapedCharacter
  | .plain, g :: r =>
    if isBlank g then scan (finish done word) none .plain r
    else if g = backslash then scan done (some (word.getD [])) (.escaped none) r
    else if isQuote g then scan done (some (word.getD [])) (.quoted g) r
    else scan done (some (g :: word.getD [])) .plain r
  | .quoted q, g :: r =>
    if g = q then scan done word .plain r
    else if g = backslash ∧ q = doubleQuote then scan done word (.escaped (some q)) r
    else scan done (some (g :: word.getD [])) (.quoted q) r
  | .escaped quote, g :: r => scan done (some (escapedPart quote g ++ word.getD [])) (.back quote) r

def ofLine (line : Text) : Except Fault (List Text) := scan [] none .plain line

end RespStore.Words
