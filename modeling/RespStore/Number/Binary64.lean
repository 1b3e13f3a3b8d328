/-!
Binary floating-point numbers of 53 bits. A finite number is a whole number of units of 2^-1074, the
least of them. Sums are exact until they are rounded to the nearest number, a tie to the even one.
-/

-- Powers of numbers are the core library's, whatever else is imported.
attribute [instance (high + 1), default_instance high + 1] instPowNat

namespace RespStore

namespace Magnitude

def greatest : Nat := (2 ^ 53 - 1) * 2 ^ 2045

/-- At most 53 significant bits, and not beyond the greatest number. -/
def Fits (units : Nat) : Prop := units ≤ greatest ∧ ∃ s e : Nat, s ≤ 2 ^ 53 ∧ units = s * 2 ^ e

end Magnitude

structure Magnitude where
  units : Nat
  fits : Magnitude.Fits units
deriving DecidableEq

namespace Magnitude

theorem quotient_lt (n den : Nat) : n / (den * 2 ^ ((n / den).log2 - 52)) < 2 ^ 53 := by
  rw [← Nat.div_div_eq_div_mul]
  generalize n / den = m
  rw [Nat.div_lt_iff_lt_mul (Nat.two_pow_pos _), ← Nat.pow_add]
  exact Nat.lt_of_lt_of_le Nat.lt_log2_self (Nat.pow_le_pow_right (by decide) (by omega))

def roundedQuotient (n d : Nat) : Nat :=
  if d < 2 * (n % d) ∨ (d = 2 * (n % d) ∧ n / d % 2 = 1) then n / d + 1 else n / d

theorem roundedQuotient_le (n d : Nat) : roundedQuotient n d ≤ n / d + 1 := by
  unfold roundedQuotient
  split <;> omega

/-- The magnitude nearest to `n / den` units; `none` where that is beyond the greatest. -/
def nearest (n den : Nat) : Option Magnitude :=
  let e := (n / den).log2 - 52
  let s := roundedQuotient n (den * 2 ^ e)
  if h : s * 2 ^ e ≤ greatest then
    some ⟨s * 2 ^ e, h, s, e, Nat.le_trans (roundedQuotient_le _ _) (quotient_lt n den), rfl⟩
  else none

def zero : Magnitude := ⟨0, Nat.zero_le _, 0, 0, Nat.zero_le _, rfl⟩

end Magnitude

inductive Binary64 where
  | finite (negative : Bool) (m : Magnitude)
  | infinite (negative : Bool)
  | nan
deriving DecidableEq

namespace Binary64

/-- The units in one. -/
def one : Nat := 2 ^ 1074

def zero : Binary64 := finite false .zero

def signed (negative : Bool) (m : Magnitude) : Int := if negative then -m.units else m.units

def ofMagnitude? (negative : Bool) : Option Magnitude → Binary64
  | some m => finite negative m
  | none => infinite negative

def ofUnits (negative : Bool) (u : Int) : Binary64 := ofMagnitude? negative (Magnitude.nearest u.natAbs 1)

def neg : Binary64 → Binary64
  | finite s m => finite (!s) m
  | infinite s => infinite (!s)
  | nan => nan

def add : Binary64 → Binary64 → Binary64
  | finite s m, finite t n =>
    let u := signed s m + signed t n
    ofUnits (if u = 0 then s && t else u < 0) u
  | infinite s, infinite t => if s = t then infinite s else nan
  | infinite s, finite _ _ => infinite s
  | finite _ _, infinite t => infinite t
  | nan, _ => nan
  | _, nan => nan

def sub (x y : Binary64) : Binary64 := add x y.neg

def le : Binary64 → Binary64 → Bool
  | nan, _ => false
  | _, nan => false
  | infinite true, _ => true
  | _, infinite false => true
  | finite s m, finite t n => signed s m ≤ signed t n
  | _, _ => false

def isPositive (x : Binary64) : Bool := le zero x && !le x zero

def ofInt? (n : Int) : Option Binary64 :=
  (Magnitude.nearest (n.natAbs * one) 1).map (finite (n < 0))

def ceil (negative : Bool) (m : Magnitude) : Int := -(-signed negative m / one)

def ofDecimal (negative : Bool) (digits : Nat) (exponent : Int) : Binary64 :=
  if digits = 0 ∨ exponent < -400 - digits.log2 then finite negative .zero
  else if 400 < exponent then infinite negative
  else ofMagnitude? negative
    (Magnitude.nearest (digits * 10 ^ exponent.toNat * one) (10 ^ (-exponent).toNat))

end Binary64

end RespStore
