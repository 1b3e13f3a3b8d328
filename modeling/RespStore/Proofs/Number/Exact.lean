import Mathlib.Data.Rat.Floor
import RespStore.Proofs.Number.Order
import RespStore.Proofs.Number.Rounding

/-! Doubles as rational numbers. A double that is not infinite has a value, and the order and rounding up to a whole
number are those of the values. Sums that fit into 53 bits are exact, so whole numbers add up without rounding as long
as the sum is no greater than 2 ^ 53. -/

namespace RespStore.Binary64

open Magnitude (Fits nearest nearest_units)

variable {s t : Bool} {m n : Magnitude} {x y : Binary64} {p q : ℚ}

theorem signed_not (s : Bool) (m : Magnitude) : signed (!s) m = -signed s m := by cases s <;> simp [signed]

theorem signed_false (m : Magnitude) : signed false m = m.units := by simp [signed]

theorem natAbs_signed (s : Bool) (m : Magnitude) : (signed s m).natAbs = m.units := by cases s <;> simp [signed]

theorem signed_of_natAbs {u : Int} (h : m.units = u.natAbs) (hs : u ≠ 0 → (s = true ↔ u < 0)) : signed s m = u := by
  by_cases hu : u = 0
  · cases s <;> simp [signed, h, hu]
  have hsign := hs hu
  cases s with
  | false =>
    have hnonneg : ¬u < 0 := fun hneg => Bool.false_ne_true (hsign.mpr hneg)
    rw [signed_false, h]
    omega
  | true =>
    have hneg : u < 0 := hsign.mp rfl
    have hsigned : signed true m = -m.units := rfl
    rw [hsigned, h]
    omega

def toRat? : Binary64 → Option ℚ
  | finite s m => some (signed s m / one)
  | _ => none

theorem one_pos : (0 : ℚ) < one := by
  unfold one
  positivity

theorem exists_finite_of_toRat? (h : x.toRat? = some q) : ∃ s m, x = finite s m ∧ (signed s m : ℚ) = q * one := by
  cases x with
  | finite s m => exact ⟨s, m, rfl, (div_eq_iff one_pos.ne').mp (Option.some.inj h)⟩
  | infinite s => cases h
  | nan => cases h

theorem ne_nan_of_toRat? (h : x.toRat? = some q) : x ≠ nan := by
  rintro rfl
  cases h

theorem le_iff_of_toRat? (hx : x.toRat? = some p) (hy : y.toRat? = some q) : x.le y = true ↔ p ≤ q := by
  obtain ⟨s, m, rfl, hm⟩ := exists_finite_of_toRat? hx
  obtain ⟨t, n, rfl, hn⟩ := exists_finite_of_toRat? hy
  rw [le_finite, decide_eq_true_eq, ← Int.cast_le (R := ℚ), hm, hn, mul_le_mul_iff_of_pos_right one_pos]

theorem ceil_eq (s : Bool) (m : Magnitude) : ceil s m = ⌈(signed s m : ℚ) / one⌉ :=
  (Rat.ceil_intCast_div_natCast _ _).symm

theorem toRat?_add (hx : x.toRat? = some p) (hy : y.toRat? = some q) {u : Int} (hu : (u : ℚ) = (p + q) * one)
    (hfits : Fits u.natAbs) : (x.add y).toRat? = some (p + q) := by
  obtain ⟨s, m, rfl, hm⟩ := exists_finite_of_toRat? hx
  obtain ⟨t, n, rfl, hn⟩ := exists_finite_of_toRat? hy
  have hsum : signed s m + signed t n = u := by
    have hcast : ((signed s m + signed t n : Int) : ℚ) = u := by rw [Int.cast_add, hm, hn, hu, add_mul]
    exact_mod_cast hcast
  have hunits : nearest u.natAbs 1 = some ⟨u.natAbs, hfits⟩ := nearest_units ⟨u.natAbs, hfits⟩
  have hsigned : signed (if u = 0 then s && t else u < 0) ⟨u.natAbs, hfits⟩ = u :=
    signed_of_natAbs rfl fun hne => by rw [if_neg hne, decide_eq_true_eq]
  rw [add, hsum, ofUnits, hunits, ofMagnitude?, toRat?, hsigned, hu, mul_div_cancel_right₀ _ one_pos.ne']

theorem toRat?_neg (hx : x.toRat? = some p) : x.neg.toRat? = some (-p) := by
  obtain ⟨s, m, rfl, hm⟩ := exists_finite_of_toRat? hx
  rw [neg, toRat?, signed_not, Int.cast_neg, hm, ← neg_mul, mul_div_cancel_right₀ _ one_pos.ne']

section Whole

variable {i j : Int}

def wholeBound : Int := 2 ^ 53

/-- Names the exponent, since a use with the number in it would have the power evaluated. -/
theorem exists_one_eq : ∃ e ≤ 2044, one = 2 ^ e := by
  refine ⟨_, ?_, rfl⟩
  omega

theorem fits_mul_pow {n e : Nat} (hn : n ≤ 2 ^ 53) (he : e ≤ 2044) : Fits (n * 2 ^ e) := by
  refine ⟨?_, n, e, hn, rfl⟩
  calc n * 2 ^ e ≤ 2 ^ 53 * 2 ^ e := Nat.mul_le_mul_right _ hn
    _ = 2 ^ (53 + e) := (Nat.pow_add 2 53 e).symm
    _ ≤ 2 ^ 2097 := Nat.pow_le_pow_right Nat.two_pos (by omega)
    _ ≤ Magnitude.greatest := Magnitude.le_greatest

theorem fits_whole (h : |i| ≤ wholeBound) : Fits (i * one).natAbs := by
  have hi : i.natAbs ≤ 2 ^ 53 := by
    have habs : (i.natAbs : Int) ≤ wholeBound := (Int.natCast_natAbs i).trans_le h
    exact Int.ofNat_le.mp habs
  obtain ⟨e, he, hone⟩ := exists_one_eq
  rw [Int.natAbs_mul, Int.natAbs_natCast, hone]
  exact fits_mul_pow hi he

theorem toRat?_ofInt? (h : |i| ≤ wholeBound) : ∃ x, ofInt? i = some x ∧ x.toRat? = some (i : ℚ) := by
  have hunits : i.natAbs * one = (i * one).natAbs := by rw [Int.natAbs_mul, Int.natAbs_natCast]
  have hnearest : nearest (i.natAbs * one) 1 = some ⟨(i * one).natAbs, fits_whole h⟩ := by
    rw [hunits]
    exact nearest_units ⟨(i * one).natAbs, fits_whole h⟩
  refine ⟨finite (i < 0) ⟨_, fits_whole h⟩, by rw [ofInt?, hnearest]; rfl, ?_⟩
  have hone : (0 : Int) < one := by exact_mod_cast one_pos
  have hsigned : signed (i < 0) ⟨(i * one).natAbs, fits_whole h⟩ = i * one :=
    signed_of_natAbs rfl fun _ => by
      rw [decide_eq_true_eq]
      exact ⟨fun hneg => mul_neg_of_neg_of_pos hneg hone, fun hneg => neg_of_mul_neg_left hneg hone.le⟩
  rw [toRat?, hsigned, Int.cast_mul, Int.cast_natCast, mul_div_cancel_right₀ _ one_pos.ne']

theorem toRat?_add_whole (hx : x.toRat? = some (i : ℚ)) (hy : y.toRat? = some (j : ℚ)) (h : |i + j| ≤ wholeBound) :
    (x.add y).toRat? = some ((i + j : Int) : ℚ) := by
  have hu : (((i + j) * one : Int) : ℚ) = (i + j) * one := by push_cast; rfl
  rw [toRat?_add hx hy hu (fits_whole h), Int.cast_add]

theorem toRat?_sub_whole (hx : x.toRat? = some (i : ℚ)) (hy : y.toRat? = some (j : ℚ)) (h : |i - j| ≤ wholeBound) :
    (x.sub y).toRat? = some ((i - j : Int) : ℚ) := by
  have hneg : y.neg.toRat? = some ((-j : Int) : ℚ) := by rw [toRat?_neg hy, Int.cast_neg]
  exact toRat?_add_whole hx hneg h

end Whole

end RespStore.Binary64
