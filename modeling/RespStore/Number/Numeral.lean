import RespStore.Text.Basic

/-!
Decimal numerals in bytes: perhaps a minus sign, and then digits. A written numeral begins with no
needless zero; a read one may, but has at most `maxDigits` digits.
-/

namespace RespStore.Numeral

inductive Fault where
  | malformed
  | tooLong (digits : Nat)
deriving DecidableEq

def maxDigits : Nat := 4300

def minus : UInt8 := 45

def isDigit (b : UInt8) : Bool := 48 ≤ b && b ≤ 57

def digit (n : Nat) : UInt8 := .ofNat (48 + n)

def value (ds : Bytes) : Nat := ds.foldl (fun v d => v * 10 + (d.toNat - 48)) 0

def readNat (ds : Bytes) : Except Fault Nat :=
  if ds.isEmpty || !ds.all isDigit then .error .malformed
  else if maxDigits < ds.length then .error (.tooLong ds.length)
  else .ok (value ds)

def read : Bytes → Except Fault Int
  | [] => .error .malformed
  | b :: r => if b = minus then (readNat r).map (fun n => -(n : Int)) else (readNat (b :: r)).map Int.ofNat

def ofNat (n : Nat) : Bytes := if n < 10 then [digit n] else ofNat (n / 10) ++ [digit (n % 10)]

def ofInt : Int → Bytes
  | .ofNat n => ofNat n
  | .negSucc n => minus :: ofNat (n + 1)

theorem value_append (ds : Bytes) (d : UInt8) : value (ds ++ [d]) = value ds * 10 + (d.toNat - 48) := by
  simp [value]

theorem toNat_digit {n : Nat} (h : n < 10) : (digit n).toNat = 48 + n := by
  simp only [digit, UInt8.toNat_ofNat']
  omega

theorem isDigit_digit {n : Nat} (h : n < 10) : isDigit (digit n) = true := by
  have := toNat_digit h
  simp only [isDigit, Bool.and_eq_true, decide_eq_true_eq, UInt8.le_iff_toNat_le, this]
  exact ⟨Nat.le_add_right _ _, by simp; omega⟩

theorem value_ofNat (n : Nat) : value (ofNat n) = n := by
  fun_induction ofNat n with
  | case1 n h => simp [value, toNat_digit h]
  | case2 n h ih =>
    rw [value_append, ih, toNat_digit (Nat.mod_lt _ (by decide))]
    omega

theorem isDigit_of_mem_ofNat {n : Nat} {b : UInt8} (hb : b ∈ ofNat n) : isDigit b = true := by
  fun_induction ofNat n with
  | case1 n h =>
    obtain rfl := List.mem_singleton.mp hb
    exact isDigit_digit h
  | case2 n h ih =>
    rcases List.mem_append.mp hb with hb | hb
    · exact ih hb
    · obtain rfl := List.mem_singleton.mp hb
      exact isDigit_digit (Nat.mod_lt _ (by decide))

theorem ofNat_ne_nil (n : Nat) : ofNat n ≠ [] := by
  unfold ofNat
  split <;> simp

theorem readNat_ofNat {n : Nat} (h : (ofNat n).length ≤ maxDigits) : readNat (ofNat n) = .ok n := by
  have hall : (ofNat n).all isDigit = true := List.all_eq_true.mpr fun b hb => isDigit_of_mem_ofNat hb
  simp [readNat, hall, ofNat_ne_nil, Nat.not_lt.mpr h, value_ofNat]

end RespStore.Numeral

namespace RespStore.Text

def ofNat (n : Nat) : Text := ofBytes7 (Numeral.ofNat n)
where ofBytes7 (bs : Bytes) : Text := bs.map fun b => .char (.ofNat b.toNat)

/-- For any number, though one of more than `maxDigits` digits is never to be written. -/
def ofInt (n : Int) : Text := ofNat.ofBytes7 (Numeral.ofInt n)

end RespStore.Text
