import RespStore.Text.Basic

/-!
Reading UTF-8. A byte string is cut into characters and malformed parts, each part as long as the
sequence it begins could still be right; the readings differ only in what becomes of such a part.
-/

namespace RespStore.Utf8

inductive Segment where
  | char (c : Char)
  | malformed (part : Bytes)
deriving DecidableEq

/-- What a first byte announces: the bytes that follow it, the range of the next one, its own bits. -/
structure Lead where
  trailing : Nat
  low : UInt8
  high : UInt8
  bits : Nat

/-- The narrowed ranges leave out overlong forms, surrogates and numbers beyond the last character. -/
def lead? (b : UInt8) : Option Lead :=
  if b < 0x80 then some ⟨0, 0x80, 0xBF, b.toNat⟩
  else if b < 0xC2 then none
  else if b < 0xE0 then some ⟨1, 0x80, 0xBF, b.toNat - 0xC0⟩
  else if b < 0xF0 then
    some ⟨2, if b = 0xE0 then 0xA0 else 0x80, if b = 0xED then 0x9F else 0xBF, b.toNat - 0xE0⟩
  else if b < 0xF5 then
    some ⟨3, if b = 0xF0 then 0x90 else 0x80, if b = 0xF4 then 0x8F else 0xBF, b.toNat - 0xF0⟩
  else none

def trail : Nat → UInt8 → UInt8 → Bytes → Bytes
  | n + 1, low, high, x :: r => if low ≤ x ∧ x ≤ high then x :: trail n 0x80 0xBF r else []
  | _, _, _, _ => []

def codePoint (bits : Nat) (t : Bytes) : Nat := t.foldl (fun v x => v * 64 + (x.toNat - 0x80)) bits

def segment (b : UInt8) (r : Bytes) : Segment × Bytes :=
  match lead? b with
  | none => (.malformed [b], r)
  | some l =>
    let t := trail l.trailing l.low l.high r
    (if t.length = l.trailing then .char (.ofNat (codePoint l.bits t)) else .malformed (b :: t),
      r.drop t.length)

theorem segment_length_le (b : UInt8) (r : Bytes) : (segment b r).2.length ≤ r.length := by
  unfold segment
  split <;> simp

def segmentsFrom (done : List Segment) : Bytes → List Segment
  | [] => done.reverse
  | b :: r => segmentsFrom ((segment b r).1 :: done) (segment b r).2
termination_by bs => bs.length
decreasing_by exact Nat.lt_succ_of_le (segment_length_le b r)

def segments (bs : Bytes) : List Segment := segmentsFrom [] bs

theorem segmentsFrom_append (d e : List Segment) (bs : Bytes) :
    segmentsFrom (d ++ e) bs = e.reverse ++ segmentsFrom d bs := by
  fun_induction segmentsFrom d bs with
  | case1 d => simp [segmentsFrom]
  | case2 d b r ih => rw [segmentsFrom]; exact ih

theorem segmentsFrom_eq (d : List Segment) (bs : Bytes) :
    segmentsFrom d bs = d.reverse ++ segments bs := segmentsFrom_append [] d bs

@[simp] theorem segments_nil : segments [] = [] := by simp [segments, segmentsFrom]

theorem segments_cons (b : UInt8) (r : Bytes) :
    segments (b :: r) = (segment b r).1 :: segments (segment b r).2 := by
  rw [segments, segmentsFrom, segmentsFrom_eq]
  rfl

def replacement : Glyph := .char '\uFFFD'

def hexByte (b : UInt8) : List Char := [Nat.digitChar (b.toNat / 16), Nat.digitChar (b.toNat % 16)]

namespace Segment

def kept : Segment → Text
  | char c => [.char c]
  | malformed part => part.map .stray

def replaced : Segment → Text
  | char c => [.char c]
  | malformed _ => [replacement]

def escaped : Segment → Text
  | char c => [.char c]
  | malformed part => Text.ofChars (part.flatMap fun b => '\\' :: 'x' :: hexByte b)

end Segment

end RespStore.Utf8

namespace RespStore.Text

def ofBytes (bs : Bytes) : Text := (Utf8.segments bs).flatMap Utf8.Segment.kept

def ofBytesReplacing (bs : Bytes) : Text := (Utf8.segments bs).flatMap Utf8.Segment.replaced

def ofBytesEscaping (bs : Bytes) : Text := (Utf8.segments bs).flatMap Utf8.Segment.escaped

end RespStore.Text
