import RespStore.Reply
import RespStore.Wire.Encoding

/-!
Reading replies. An array under way is a frame on a stack; each reply that ends fills a place in the
topmost frame, and a full frame is a reply itself.
-/

namespace RespStore.Wire

inductive Head where
  | leaf (r : Reply)
  | array (count : Nat)

def bulkHead (limits : Limits) (n : Int) : Reader Head :=
  if n = -1 then .give (.leaf .null)
  else if n < 0 ∨ limits.bulk < n then .fail .bulkLength
  else (body n.toNat).andThen fun data => .give (.leaf (.bulk data))

def arrayHead (limits : Limits) (n : Int) : Reader Head :=
  if n = -1 then .give (.leaf .null)
  else if n < 0 ∨ limits.array < n then .fail .multibulkLength
  else if n = 0 then .give (.leaf (.array []))
  else .give (.array n.toNat)

def headOfLine (limits : Limits) (mark : UInt8) (l : Bytes) : Reader Head :=
  if mark = statusMark then .give (.leaf (.status (.ofBytesReplacing l)))
  else if mark = errorMark then .give (.leaf (.error (.ofBytesReplacing l)))
  else if mark = integerMark then (numeral .integer l).andThen fun n => .give (.leaf (.integer n))
  else if mark = bulkMark then (numeral .bulkLength l).andThen (bulkHead limits)
  else if mark = starMark then (numeral .multibulkLength l).andThen (arrayHead limits)
  else .fail (.unknownType mark)

def head (limits : Limits) : Reader Head := fun b =>
  match b with
  | [] => .more
  | mark :: r => (line limits).andThen (headOfLine limits mark) r

/-- An array with `missing` elements still to come. The latest element comes first. -/
structure Frame where
  missing : Nat
  items : List Reply

/-- Puts a reply into its place; the result is the whole reply or the frames still open. -/
def settle (r : Reply) : List Frame → Reply ⊕ List Frame
  | [] => .inl r
  | f :: fs =>
    if f.missing ≤ 1 then settle (.array (r :: f.items).reverse) fs
    else .inr (⟨f.missing - 1, r :: f.items⟩ :: fs)

theorem bulkHead_bounded (limits : Limits) (n : Int) : (bulkHead limits n).Bounded := by
  unfold bulkHead
  split
  · exact Reader.bounded_give _
  · split
    · exact Reader.bounded_fail _
    · exact ((body_shortens _).andThen fun _ => Reader.bounded_give _).bounded

theorem arrayHead_bounded (limits : Limits) (n : Int) : (arrayHead limits n).Bounded := by
  unfold arrayHead
  repeat' split
  all_goals first | exact Reader.bounded_give _ | exact Reader.bounded_fail _

theorem headOfLine_bounded (limits : Limits) (mark : UInt8) (l : Bytes) :
    (headOfLine limits mark l).Bounded := by
  unfold headOfLine
  split
  · exact Reader.bounded_give _
  split
  · exact Reader.bounded_give _
  split
  · exact (numeral_bounded _ _).andThen fun _ => Reader.bounded_give _
  split
  · exact (numeral_bounded _ _).andThen (bulkHead_bounded limits)
  split
  · exact (numeral_bounded _ _).andThen (arrayHead_bounded limits)
  · exact Reader.bounded_fail _

theorem head_shortens (limits : Limits) : (head limits).Shortens := by
  intro b h rest hh
  unfold head at hh
  split at hh
  · simp at hh
  · exact Nat.lt_succ_of_lt ((line_shortens limits).andThen (headOfLine_bounded limits _) hh)

def replyWithin (limits : Limits) (frames : List Frame) (b : Bytes) : Progress Reply :=
  match _h : head limits b with
  | .more => .more
  | .fault e => .fault e
  | .done (.array n) rest => replyWithin limits (⟨n, []⟩ :: frames) rest
  | .done (.leaf r) rest =>
    match settle r frames with
    | .inl whole => .done whole rest
    | .inr frames => replyWithin limits frames rest
termination_by b.length
decreasing_by all_goals exact head_shortens limits _h

theorem replyWithin_eq (limits : Limits) (frames : List Frame) (b : Bytes) :
    replyWithin limits frames b =
      match head limits b with
      | .more => .more
      | .fault e => .fault e
      | .done (.array n) rest => replyWithin limits (⟨n, []⟩ :: frames) rest
      | .done (.leaf r) rest =>
        match settle r frames with
        | .inl whole => .done whole rest
        | .inr frames => replyWithin limits frames rest := by
  rw [replyWithin]
  split <;> rename_i h <;> rw [h]

def reply (limits : Limits) : Reader Reply := replyWithin limits []

namespace Decoder

/-- The next reply. Nothing is taken off unless a whole reply is there. -/
def nextReply (d : Decoder) : Except DecodeError (Option Reply) × Decoder :=
  match reply d.limits d.buffer with
  | .more => (.ok none, d)
  | .fault e => (.error e, d)
  | .done r rest => (.ok (some r), { d with buffer := rest })

end Decoder

end RespStore.Wire
