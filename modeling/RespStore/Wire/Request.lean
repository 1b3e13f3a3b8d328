import RespStore.Pieces
import RespStore.Text.Utf8
import RespStore.Wire.Reader

/-!
Requests: a name and its arguments, either an array of bulks or the words of a plain line. Blank
lines and empty arrays are passed over.
-/

namespace RespStore

structure Request where
  name : Text
  args : List Bytes
deriving DecidableEq

def Request.ofParts : List Bytes → Request
  | [] => ⟨[], []⟩
  | name :: args => ⟨.ofBytes name, args⟩

namespace Wire

def starMark : UInt8 := 42

def bulkMark : UInt8 := 36

def isAsciiBlank (b : UInt8) : Bool := b = 32 || (9 ≤ b && b ≤ 13)

def argumentBody (limits : Limits) (n : Int) : Reader Bytes :=
  if n < 0 ∨ limits.bulk < n then .fail .bulkLength else body n.toNat

def argument (limits : Limits) : Reader Bytes := fun b =>
  match b with
  | [] => .more
  | t :: r =>
    if t = bulkMark then (number limits .bulkLength).andThen (argumentBody limits) r
    else .fault (.protocol (.bulkExpected t))

def inlineWords (limits : Limits) : Reader (List Bytes) := fun b =>
  match b.findIdx? (· = lf) with
  | some i => .done (Pieces.words isAsciiBlank (b.take i)) (b.drop (i + 1))
  | none => if limits.line < b.length then .fault (.protocol .inlineTooBig) else .more

inductive Opening where
  | skipped
  | arguments (n : Nat)
  | words (first : Bytes) (more : List Bytes)

def Opening.ofWords : List Bytes → Opening
  | [] => .skipped
  | w :: ws => .words w ws

def openingOfCount (limits : Limits) (n : Int) : Reader Opening :=
  if n < -1 ∨ limits.array < n then .fail .multibulkLength
  else if 0 < n then .give (.arguments n.toNat)
  else .give .skipped

def opening (limits : Limits) : Reader Opening := fun b =>
  match b with
  | [] => .more
  | t :: r =>
    if t = starMark then (number limits .multibulkLength).andThen (openingOfCount limits) r
    else (inlineWords limits).andThen (fun ws => .give (.ofWords ws)) b

theorem argumentBody_bounded (limits : Limits) (n : Int) : (argumentBody limits n).Bounded := by
  unfold argumentBody
  split
  · exact Reader.bounded_fail _
  · exact (body_shortens _).bounded

theorem argument_shortens (limits : Limits) : (argument limits).Shortens := by
  intro b a rest h
  unfold argument at h
  split at h
  · simp at h
  · split at h
    · exact Nat.lt_succ_of_lt ((number_shortens limits _).andThen (argumentBody_bounded limits) h)
    · simp at h

theorem inlineWords_shortens (limits : Limits) : (inlineWords limits).Shortens := by
  intro b ws rest h
  unfold inlineWords at h
  split at h
  · rename_i i hi
    obtain ⟨hi, -⟩ := List.findIdx?_eq_some_iff_getElem.mp hi
    rw [← (Progress.done.inj h).2, List.length_drop]
    omega
  · split at h <;> simp at h

theorem openingOfCount_bounded (limits : Limits) (n : Int) : (openingOfCount limits n).Bounded := by
  unfold openingOfCount
  split
  · exact Reader.bounded_fail _
  · split <;> exact Reader.bounded_give _

theorem opening_shortens (limits : Limits) : (opening limits).Shortens := by
  intro b o rest h
  unfold opening at h
  split at h
  · simp at h
  · split at h
    · exact Nat.lt_succ_of_lt ((number_shortens limits _).andThen (openingOfCount_bounded limits) h)
    · exact (inlineWords_shortens limits).andThen (fun _ => Reader.bounded_give _) h

/-- A request of which `missing` arguments are still to come. The latest argument comes first. -/
structure Draft where
  missing : Nat
  args : List Bytes
deriving DecidableEq

structure Scan where
  found : Except DecodeError (Option Request)
  draft : Option Draft
  rest : Bytes

def fill (limits : Limits) : Nat → List Bytes → Bytes → Scan
  | 0, args, b => ⟨.ok (some (.ofParts args.reverse)), none, b⟩
  | n + 1, args, b =>
    match argument limits b with
    | .more => ⟨.ok none, some ⟨n + 1, args⟩, b⟩
    | .fault e => ⟨.error e, some ⟨n + 1, args⟩, b⟩
    | .done a rest => fill limits n (a :: args) rest

def seek (limits : Limits) (b : Bytes) : Scan :=
  match _h : opening limits b with
  | .more => ⟨.ok none, none, b⟩
  | .fault e => ⟨.error e, none, b⟩
  | .done .skipped rest => seek limits rest
  | .done (.arguments n) rest => fill limits n [] rest
  | .done (.words w ws) rest => ⟨.ok (some (.ofParts (w :: ws))), none, rest⟩
termination_by b.length
decreasing_by exact opening_shortens limits _h

theorem seek_eq (limits : Limits) (b : Bytes) :
    seek limits b =
      match opening limits b with
      | .more => ⟨.ok none, none, b⟩
      | .fault e => ⟨.error e, none, b⟩
      | .done .skipped rest => seek limits rest
      | .done (.arguments n) rest => fill limits n [] rest
      | .done (.words w ws) rest => ⟨.ok (some (.ofParts (w :: ws))), none, rest⟩ := by
  rw [seek]
  split <;> simp_all

def scan (limits : Limits) (b : Bytes) : Option Draft → Scan
  | none => seek limits b
  | some d => fill limits d.missing d.args b

theorem fill_length {limits : Limits} {n : Nat} {args : List Bytes} {b : Bytes} :
    (fill limits n args b).rest.length + n ≤ b.length ∨
      ∀ r, (fill limits n args b).found ≠ .ok (some r) := by
  induction n generalizing args b with
  | zero => exact .inl (Nat.le_refl _)
  | succ n ih =>
    rw [fill]
    split
    · exact .inr fun r => by simp
    · exact .inr fun r => by simp
    · rename_i a rest ha
      have := argument_shortens limits ha
      rcases @ih (a :: args) rest with h | h
      · exact .inl (by omega)
      · exact .inr h

theorem seek_length {limits : Limits} {b : Bytes} {r : Request}
    (h : (seek limits b).found = .ok (some r)) : (seek limits b).rest.length < b.length := by
  fun_induction seek limits b with
  | case1 => simp at h
  | case2 => simp at h
  | case3 b rest ho ih => exact Nat.lt_trans (ih h) (opening_shortens limits ho)
  | case4 b n rest ho =>
    have := opening_shortens limits ho
    rcases @fill_length limits n [] rest with h' | h'
    · omega
    · exact absurd h (h' r)
  | case5 b w ws rest ho => exact opening_shortens limits ho

theorem draft_fill {limits : Limits} {n : Nat} {args : List Bytes} {b : Bytes} {r : Request}
    (h : (fill limits n args b).found = .ok (some r)) : (fill limits n args b).draft = none := by
  induction n generalizing args b with
  | zero => rfl
  | succ n ih =>
    rw [fill] at h ⊢
    split at h
    · simp at h
    · simp at h
    · exact ih h

theorem draft_seek {limits : Limits} {b : Bytes} {r : Request}
    (h : (seek limits b).found = .ok (some r)) : (seek limits b).draft = none := by
  fun_induction seek limits b with
  | case1 => simp at h
  | case2 => simp at h
  | case3 b rest ho ih => exact ih h
  | case4 b n rest ho => exact draft_fill h
  | case5 b w ws rest ho => rfl

structure Decoder where
  limits : Limits := {}
  buffer : Bytes := []
  draft : Option Draft := none
deriving DecidableEq

namespace Decoder

def feed (d : Decoder) (data : Bytes) : Decoder := { d with buffer := d.buffer ++ data }

def reset (d : Decoder) : Decoder := { d with buffer := [], draft := none }

def next (d : Decoder) : Except DecodeError (Option Request) × Decoder :=
  let s := scan d.limits d.buffer d.draft
  (s.found, { d with buffer := s.rest, draft := s.draft })

end Decoder

end Wire

end RespStore
