import Mathlib.Data.List.Induction
import Mathlib.Data.Nat.Digits.Defs
import RespStore.Number.Numeral

/-! Numerals as they are written, and what reading makes of them. A byte string is either written by one of
them or malformed; of those written, only the long ones are refused. -/

namespace RespStore.Numeral

structure Spelling where
  negative : Bool
  digits : List Nat
  digits_ne_nil : digits ≠ []
  digits_lt : ∀ d ∈ digits, d < 10

namespace Spelling

def magnitude (w : Spelling) : Nat := Nat.ofDigits 10 w.digits.reverse

def number (w : Spelling) : Int := if w.negative then -w.magnitude else w.magnitude

def toBytes (w : Spelling) : Bytes := if w.negative then minus :: w.digits.map digit else w.digits.map digit

def IsLong (w : Spelling) : Prop := maxDigits < w.digits.length

instance (w : Spelling) : Decidable w.IsLong := inferInstanceAs (Decidable (_ < _))

def run (d : Fin 10) (n : Nat) : Spelling where
  negative := false
  digits := List.replicate (n + 1) d.val
  digits_ne_nil := by rw [List.replicate_succ]; exact List.cons_ne_nil _ _
  digits_lt x hx := by rw [List.eq_of_mem_replicate hx]; exact d.isLt

theorem length_run (d : Fin 10) (n : Nat) : (run d n).digits.length = n + 1 := List.length_replicate

theorem number_run_zero (n : Nat) : (run 0 n).number = 0 := by
  have hmagnitude : (run 0 n).magnitude = 0 := by
    show Nat.ofDigits 10 (List.replicate (n + 1) 0).reverse = 0
    rw [List.reverse_replicate, Nat.ofDigits_replicate_zero]
  rw [number, hmagnitude]
  rfl

theorem isLong_run (d : Fin 10) : (run d maxDigits).IsLong := by
  rw [IsLong, length_run]
  exact Nat.lt_succ_self maxDigits

end Spelling

/-- Spells a number in `n` digits, more than are ever read. -/
def Overlong (n : Nat) (bs : Bytes) : Prop := ∃ w : Spelling, w.IsLong ∧ w.digits.length = n ∧ w.toBytes = bs

theorem overlong_run (d : Fin 10) : Overlong 4301 (Spelling.run d maxDigits).toBytes :=
  ⟨Spelling.run d maxDigits, Spelling.isLong_run d, Spelling.length_run d maxDigits, rfl⟩

variable {ds : List Nat}

theorem value_map_digit (h : ∀ d ∈ ds, d < 10) : value (ds.map digit) = Nat.ofDigits 10 ds.reverse := by
  induction ds using List.reverseRecOn with
  | nil => rfl
  | append_singleton ds d ih =>
    have hd : d < 10 := h d (by simp)
    have hds := ih fun x hx => h x (List.mem_append_left _ hx)
    rw [List.map_append, List.map_singleton, value_append, hds, toNat_digit hd, List.reverse_append,
      List.reverse_singleton, List.singleton_append, Nat.ofDigits_cons]
    omega

theorem digit_sub {b : UInt8} (h : isDigit b = true) : b.toNat - 48 < 10 ∧ digit (b.toNat - 48) = b := by
  simp only [isDigit, Bool.and_eq_true, decide_eq_true_eq, UInt8.le_iff_toNat_le,
    UInt8.reduceToNat] at h
  refine ⟨by omega, UInt8.toNat_inj.mp ?_⟩
  rw [toNat_digit (by omega)]
  omega

theorem exists_digits {bs : Bytes} (h : bs.all isDigit = true) :
    ∃ ds : List Nat, (∀ d ∈ ds, d < 10) ∧ bs = ds.map digit := by
  rw [List.all_eq_true] at h
  refine ⟨bs.map fun b => b.toNat - 48, ?_, ?_⟩
  · intro d hd
    obtain ⟨b, hb, rfl⟩ := List.mem_map.mp hd
    exact (digit_sub (h b hb)).1
  · rw [List.map_map]
    apply (List.map_id bs).symm.trans
    apply List.map_congr_left
    intro b hb
    exact (digit_sub (h b hb)).2.symm

theorem readNat_map_digit (hne : ds ≠ []) (h : ∀ d ∈ ds, d < 10) :
    readNat (ds.map digit) =
      if maxDigits < ds.length then .error (.tooLong ds.length)
      else .ok (Nat.ofDigits 10 ds.reverse) := by
  have hall : (ds.map digit).all isDigit = true := by
    rw [List.all_eq_true]
    intro b hb
    obtain ⟨d, hd, rfl⟩ := List.mem_map.mp hb
    exact isDigit_digit (h d hd)
  have hempty : (ds.map digit).isEmpty = false := by simpa using hne
  rw [readNat, hempty, hall, value_map_digit h, List.length_map]
  rfl

theorem readNat_malformed {bs : Bytes} (h : readNat bs ≠ .error .malformed) :
    ∃ ds : List Nat, ds ≠ [] ∧ (∀ d ∈ ds, d < 10) ∧ bs = ds.map digit := by
  by_cases hb : (bs.isEmpty || !bs.all isDigit) = true
  · rw [readNat, if_pos hb] at h
    exact absurd rfl h
  · rw [Bool.or_eq_true, not_or, List.isEmpty_iff, Bool.not_eq_true', Bool.not_eq_false] at hb
    obtain ⟨ds, hds, rfl⟩ := exists_digits hb.2
    exact ⟨ds, fun hn => hb.1 (by rw [hn]; rfl), hds, rfl⟩

theorem Spelling.mem_toBytes {w : Spelling} {b : UInt8} (hb : b ∈ w.toBytes) : b = minus ∨ isDigit b = true := by
  have hdigits : b ∈ w.digits.map digit → isDigit b = true := by
    intro h
    obtain ⟨d, hd, rfl⟩ := List.mem_map.mp h
    exact isDigit_digit (w.digits_lt d hd)
  unfold Spelling.toBytes at hb
  split at hb
  · rcases List.mem_cons.mp hb with hb | hb
    · exact .inl hb
    · exact .inr (hdigits hb)
  · exact .inr (hdigits hb)

theorem digit_ne_minus {d : Nat} (h : d < 10) : digit d ≠ minus := by
  intro hd
  have hn := congrArg UInt8.toNat hd
  rw [toNat_digit h] at hn
  have hm : minus.toNat = 45 := rfl
  omega

theorem read_toBytes (w : Spelling) :
    read w.toBytes = if w.IsLong then .error (.tooLong w.digits.length) else .ok w.number := by
  obtain ⟨negative, digits, hne, hlt⟩ := w
  have hr := readNat_map_digit hne hlt
  cases negative with
  | true =>
    show read (minus :: digits.map digit) = if maxDigits < digits.length then _ else _
    rw [read, if_pos rfl, hr]
    split <;> rfl
  | false =>
    cases digits with
    | nil => exact absurd rfl hne
    | cons d ds =>
      show read (digit d :: ds.map digit) = if maxDigits < (d :: ds).length then _ else _
      rw [List.map_cons] at hr
      rw [read, if_neg (digit_ne_minus (hlt d List.mem_cons_self)), hr]
      split <;> rfl

theorem exists_spelling {bs : Bytes} (h : read bs ≠ .error .malformed) : ∃ w : Spelling, w.toBytes = bs := by
  cases bs with
  | nil => exact absurd rfl h
  | cons b r =>
    rw [read] at h
    by_cases hb : b = minus
    · rw [if_pos hb] at h
      have hr : readNat r ≠ .error .malformed := fun hr => h (by rw [hr]; rfl)
      obtain ⟨ds, hne, hlt, rfl⟩ := readNat_malformed hr
      exact ⟨⟨true, ds, hne, hlt⟩, by rw [hb]; rfl⟩
    · rw [if_neg hb] at h
      have hr : readNat (b :: r) ≠ .error .malformed := fun hr => h (by rw [hr]; rfl)
      obtain ⟨ds, hne, hlt, hbs⟩ := readNat_malformed hr
      exact ⟨⟨false, ds, hne, hlt⟩, hbs.symm⟩

theorem read_eq_malformed_iff {bs : Bytes} :
    read bs = .error .malformed ↔ ∀ w : Spelling, w.toBytes ≠ bs := by
  constructor
  · rintro h w rfl
    rw [read_toBytes] at h
    split at h <;> cases h
  · intro h
    by_contra hbs
    obtain ⟨w, hw⟩ := exists_spelling hbs
    exact h w hw

theorem read_eq_tooLong_iff {bs : Bytes} {n : Nat} : read bs = .error (.tooLong n) ↔ Overlong n bs := by
  constructor
  · intro h
    have hbs : read bs ≠ .error .malformed := by rw [h]; simp
    obtain ⟨w, rfl⟩ := exists_spelling hbs
    rw [read_toBytes] at h
    split at h
    · rename_i hw
      injection h with h
      injection h with h
      exact ⟨w, hw, h, rfl⟩
    · cases h
  · rintro ⟨w, hw, rfl, rfl⟩
    rw [read_toBytes, if_pos hw]

end RespStore.Numeral
