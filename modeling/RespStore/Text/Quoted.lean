import RespStore.Text.Printable

/-!
Texts and bytes shown between quotes. The quote is the apostrophe unless the text has one and no
double quote; what does not show is written by its number.
-/

namespace RespStore.Quoted

def hex (width n : Nat) : List Char :=
  let ds := Nat.toDigits 16 n
  List.replicate (width - ds.length) '0' ++ ds

def escape (mark : Char) (width n : Nat) : List Char := '\\' :: mark :: hex width n

def quoteFor (cs : List Char) : Char := if '\'' ∈ cs ∧ '"' ∉ cs then '"' else '\''

def char (quote c : Char) : List Char :=
  if c = '\\' ∨ c = quote then ['\\', c]
  else if c = '\n' then ['\\', 'n']
  else if c = '\r' then ['\\', 'r']
  else if c = '\t' then ['\\', 't']
  else if Printable.shows c then [c]
  else if c.toNat ≤ 0xFF then escape 'x' 2 c.toNat
  else if c.toNat ≤ 0xFFFF then escape 'u' 4 c.toNat
  else escape 'U' 8 c.toNat

def glyph (quote : Char) : Glyph → List Char
  | .char c => char quote c
  | .stray b => escape 'u' 4 (0xDC00 + b.toNat)

def chars? : Glyph → Option Char
  | .char c => some c
  | .stray _ => none

def text (t : Text) : List Char :=
  let quote := quoteFor (t.filterMap chars?)
  quote :: t.flatMap (glyph quote) ++ [quote]

def byte (quote : Char) (b : UInt8) : List Char :=
  if b < 0x80 then char quote (.ofNat b.toNat) else escape 'x' 2 b.toNat

def bytes (bs : Bytes) : List Char :=
  let quote := quoteFor (bs.map fun b => .ofNat b.toNat)
  'b' :: quote :: bs.flatMap (byte quote) ++ [quote]

end RespStore.Quoted
