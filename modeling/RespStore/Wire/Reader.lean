import RespStore.Wire.Fault

/-!
Readers take a value off the front of a byte string, ask for more bytes, or report a fault.
-/

namespace RespStore.Wire

/-- No length is within a limit below zero. -/
structure Limits where
  bulk : Int := 512 * 1024 * 1024
  line : Int := 64 * 1024
  array : Int := 1024 * 1024
deriving DecidableEq

inductive Progress (α : Type) where
  | more
  | fault (e : DecodeError)
  | done (value : α) (rest : Bytes)

abbrev Reader (α : Type) := Bytes → Progress α

namespace Reader

variable {α β : Type}

def give (a : α) : Reader α := .done a

def fail (f : ProtocolFault) : Reader α := fun _ => .fault (.protocol f)

def andThen (r : Reader α) (f : α → Reader β) : Reader β := fun b =>
  match r b with
  | .more => .more
  | .fault e => .fault e
  | .done a rest => f a rest

def Shortens (r : Reader α) : Prop := ∀ ⦃b a rest⦄, r b = .done a rest → rest.length < b.length

def Bounded (r : Reader α) : Prop := ∀ ⦃b a rest⦄, r b = .done a rest → rest.length ≤ b.length

theorem Shortens.bounded {r : Reader α} (h : r.Shortens) : r.Bounded := fun _ _ _ hr =>
  Nat.le_of_lt (h hr)

theorem bounded_give (a : α) : (give a).Bounded := fun _ _ _ h =>
  Nat.le_of_eq (congrArg List.length (Progress.done.inj h).2.symm)

theorem bounded_fail (f : ProtocolFault) : (fail f : Reader α).Bounded := fun _ _ _ h => by
  simp [fail] at h

theorem Shortens.andThen {r : Reader α} {f : α → Reader β} (hr : r.Shortens)
    (hf : ∀ a, (f a).Bounded) : (r.andThen f).Shortens := by
  intro b c rest h
  unfold Reader.andThen at h
  split at h
  · simp at h
  · simp at h
  · rename_i a r' ha
    exact Nat.lt_of_le_of_lt (hf a h) (hr ha)

theorem Bounded.andThen {r : Reader α} {f : α → Reader β} (hr : r.Bounded)
    (hf : ∀ a, (f a).Bounded) : (r.andThen f).Bounded := by
  intro b c rest h
  unfold Reader.andThen at h
  split at h
  · simp at h
  · simp at h
  · rename_i a r' ha
    exact Nat.le_trans (hf a h) (hr ha)

end Reader

def cr : UInt8 := 13

def lf : UInt8 := 10

def crlf : Bytes := [cr, lf]

def lineEndFrom (i : Nat) : Bytes → Option Nat
  | [] => none
  | b :: r => if b = cr ∧ r.head? = some lf then some i else lineEndFrom (i + 1) r

def line (limits : Limits) : Reader Bytes := fun b =>
  match lineEndFrom 0 b with
  | some i => .done (b.take i) (b.drop (i + 2))
  | none => if limits.line < b.length then .fault (.protocol .headerTooBig) else .more

def numeral (bad : ProtocolFault) (ds : Bytes) : Reader Int := fun b =>
  match Numeral.read ds with
  | .ok n => .done n b
  | .error .malformed => .fault (.protocol bad)
  | .error (.tooLong digits) => .fault (.numeralTooLong digits)

def number (limits : Limits) (bad : ProtocolFault) : Reader Int :=
  (line limits).andThen (numeral bad)

def body (n : Nat) : Reader Bytes := fun b =>
  match b.drop n with
  | x :: y :: rest =>
    if x = cr ∧ y = lf then .done (b.take n) rest else .fault (.protocol .bulkUnterminated)
  | _ => .more

theorem lineEndFrom_lt {i n : Nat} {b : Bytes} (h : lineEndFrom i b = some n) : n + 2 ≤ i + b.length := by
  induction b generalizing i with
  | nil => simp [lineEndFrom] at h
  | cons a r ih =>
    rw [lineEndFrom] at h
    split at h
    · rename_i hr
      obtain rfl := Option.some.inj h
      cases r with
      | nil => simp at hr
      | cons => simp only [List.length_cons]; omega
    · have := ih h
      simp only [List.length_cons]
      omega

theorem line_shortens (limits : Limits) : (line limits).Shortens := by
  intro b l rest h
  unfold line at h
  split at h
  · rename_i i hi
    have := lineEndFrom_lt hi
    rw [← (Progress.done.inj h).2, List.length_drop]
    omega
  · split at h <;> simp at h

theorem numeral_bounded (bad : ProtocolFault) (ds : Bytes) : (numeral bad ds).Bounded := by
  intro b n rest h
  unfold numeral at h
  split at h
  · exact Nat.le_of_eq (congrArg _ (Progress.done.inj h).2.symm)
  · simp at h
  · simp at h

theorem number_shortens (limits : Limits) (bad : ProtocolFault) : (number limits bad).Shortens :=
  (line_shortens limits).andThen (numeral_bounded bad)

theorem body_shortens (n : Nat) : (body n).Shortens := by
  intro b data rest h
  unfold body at h
  split at h
  · rename_i x y r hd
    split at h
    · have : (b.drop n).length = (x :: y :: r).length := by rw [hd]
      simp only [List.length_drop, List.length_cons] at this
      rw [← (Progress.done.inj h).2]
      omega
    · simp at h
  · simp at h

end RespStore.Wire
