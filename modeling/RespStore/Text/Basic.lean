/-!
Texts: characters, and between them the stray bytes that belong to no UTF-8 sequence. Each byte
string is the bytes of some text, so every name a client can send is a text.
-/

namespace RespStore

abbrev Bytes := List UInt8

def Bytes.ofString (s : String) : Bytes := s.toList.flatMap String.utf8EncodeChar

inductive Glyph where
  | char (c : Char)
  | stray (b : UInt8)
deriving DecidableEq

abbrev Text := List Glyph

def Glyph.toBytes : Glyph → Bytes
  | char c => String.utf8EncodeChar c
  | stray b => [b]

namespace Text

def ofChars (cs : List Char) : Text := cs.map .char

def ofString (s : String) : Text := ofChars s.toList

def toBytes (t : Text) : Bytes := t.flatMap Glyph.toBytes

@[simp] theorem toBytes_cons (g : Glyph) (t : Text) : toBytes (g :: t) = g.toBytes ++ toBytes t := by
  simp [toBytes]

@[simp] theorem toBytes_append (t u : Text) : toBytes (t ++ u) = toBytes t ++ toBytes u := by
  simp [toBytes]

end Text

end RespStore
