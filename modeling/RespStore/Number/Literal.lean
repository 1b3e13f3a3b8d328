import RespStore.Number.Binary64
import RespStore.Number.Numeral
import RespStore.Text.Blank
import RespStore.Text.DecimalDigit

/-!
Numbers as people write them in settings: with spaces around, digits of any script, and underscores
between digits.
-/

namespace RespStore.Literal

/-- Digits of any script become ASCII digits and spaces become a space; nothing else that is not
ASCII has a place in a number. -/
def plainChar (c : Char) : Char :=
  if c.toNat < 0x80 then (if isSpace c then ' ' else c)
  else if isSpace c then ' '
  else match DecimalDigit.value? c with
    | some d => Nat.digitChar d
    | none => '?'

def plain : Glyph → Char
  | .char c => plainChar c
  | .stray _ => '?'

def chars (t : Text) : List Char :=
  let trimmed := (t.map plain).dropWhile (· = ' ')
  (trimmed.reverse.dropWhile (· = ' ')).reverse

def sign : List Char → Bool × List Char
  | '-' :: r => (true, r)
  | '+' :: r => (false, r)
  | r => (false, r)

def isPart (c : Char) : Bool := c.isDigit || c = '_'

def underscoresFit (before : Char) : List Char → Bool
  | [] => true
  | c :: r =>
    (c != '_' || (before.isDigit && (r.head?.map Char.isDigit).getD false)) && underscoresFit c r

def natOf (ds : List Char) : Nat := ds.foldl (fun v d => v * 10 + (d.toNat - 48)) 0

def int (t : Text) : Except Numeral.Fault Int :=
  let (negative, r) := sign (chars t)
  let run := r.takeWhile isPart
  let digits := run.filter Char.isDigit
  if run.isEmpty || !underscoresFit ' ' run then .error .malformed
  else if Numeral.maxDigits < digits.length then .error (.tooLong digits.length)
  else if run.length < r.length then .error .malformed
  else .ok (if negative then -(natOf digits : Int) else natOf digits)

def special? (lower : List Char) : Option (Bool → Binary64) :=
  if lower = ['i', 'n', 'f'] ∨ lower = ['i', 'n', 'f', 'i', 'n', 'i', 't', 'y'] then some .infinite
  else if lower = ['n', 'a', 'n'] then some fun _ => .nan
  else none

def exponent? : List Char → Option Int
  | [] => some 0
  | c :: r =>
    if c = 'e' ∨ c = 'E' then
      let (negative, ds) := sign r
      if ds.isEmpty || !ds.all Char.isDigit then none
      else some (if negative then -(natOf ds : Int) else natOf ds)
    else none

def decimal? (negative : Bool) (r : List Char) : Option Binary64 :=
  let whole := r.takeWhile Char.isDigit
  let afterWhole := r.drop whole.length
  let (fraction, tail) := match afterWhole with
    | '.' :: more => (more.takeWhile Char.isDigit, more.dropWhile Char.isDigit)
    | more => ([], more)
  if whole.isEmpty && fraction.isEmpty then none
  else (exponent? tail).map fun e => .ofDecimal negative (natOf (whole ++ fraction)) (e - fraction.length)

def float? (t : Text) : Option Binary64 :=
  let cs := chars t
  if !underscoresFit ' ' cs then none
  else
    let (negative, r) := sign (cs.filter (· ≠ '_'))
    match special? (r.map Char.toLower) with
    | some f => some (f negative)
    | none => decimal? negative r

end RespStore.Literal
