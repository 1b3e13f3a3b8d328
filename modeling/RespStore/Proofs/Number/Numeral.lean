import RespStore.Number.Numeral

/-! Written numerals are read back, as long as they are not too long to be read. -/

namespace RespStore.Numeral

def Readable (n : Nat) : Prop := (ofNat n).length ≤ maxDigits

instance (n : Nat) : Decidable (Readable n) := inferInstanceAs (Decidable (_ ≤ _))

theorem length_ofNat_le_iff {n k : Nat} (hk : 0 < k) : (ofNat n).length ≤ k ↔ n < 10 ^ k := by
  induction k generalizing n with
  | zero => omega
  | succ k ih =>
    rw [ofNat]
    split
    · rename_i hn
      have hpow : 10 ≤ 10 ^ (k + 1) := Nat.le_self_pow (Nat.succ_ne_zero k) 10
      simp only [List.length_singleton]
      omega
    · rename_i hn
      rw [List.length_append, List.length_singleton, Nat.add_le_add_iff_right, Nat.pow_succ,
        ← Nat.div_lt_iff_lt_mul (by decide)]
      rcases Nat.eq_zero_or_pos k with rfl | hk
      · have hne : (ofNat (n / 10)).length ≠ 0 := by simpa using ofNat_ne_nil (n / 10)
        omega
      · exact ih hk

theorem length_ofNat_mono {m n : Nat} (h : m ≤ n) : (ofNat m).length ≤ (ofNat n).length := by
  have hpos : 0 < (ofNat n).length := List.length_pos_iff.mpr (ofNat_ne_nil n)
  exact (length_ofNat_le_iff hpos).mpr (Nat.lt_of_le_of_lt h ((length_ofNat_le_iff hpos).mp (Nat.le_refl _)))

theorem readable_iff {n : Nat} : Readable n ↔ n < 10 ^ maxDigits := length_ofNat_le_iff (by decide)

theorem not_isDigit_minus : isDigit minus = false := by decide

theorem read_ofNat_eq (n : Nat) : read (ofNat n) = (readNat (ofNat n)).map Int.ofNat := by
  cases hn : ofNat n with
  | nil => exact absurd hn (ofNat_ne_nil n)
  | cons b r =>
    have hb : b ≠ minus := by
      intro hb
      have hd : isDigit b = true := isDigit_of_mem_ofNat (n := n) (hn ▸ List.mem_cons_self)
      rw [hb, not_isDigit_minus] at hd
      exact absurd hd Bool.false_ne_true
    rw [read, if_neg hb]

theorem read_ofInt {n : Int} (h : Readable n.natAbs) : read (ofInt n) = .ok n := by
  cases n with
  | ofNat n =>
    have hr : readNat (ofNat n) = .ok n := readNat_ofNat h
    rw [ofInt, read_ofNat_eq, hr]
    rfl
  | negSucc n =>
    have hr : readNat (ofNat (n + 1)) = .ok (n + 1) := readNat_ofNat h
    rw [ofInt, read, if_pos rfl, hr]
    rfl

theorem readNat_of_not_readable {n : Nat} (h : ¬ Readable n) :
    readNat (ofNat n) = .error (.tooLong (ofNat n).length) := by
  have hall : (ofNat n).all isDigit = true := List.all_eq_true.mpr fun b hb => isDigit_of_mem_ofNat hb
  have hlong : maxDigits < (ofNat n).length := Nat.lt_of_not_le h
  rw [readNat, if_neg (by simp [hall, ofNat_ne_nil]), if_pos hlong]

theorem read_of_not_readable {n : Int} (h : ¬ Readable n.natAbs) :
    read (ofInt n) = .error (.tooLong (ofNat n.natAbs).length) := by
  cases n with
  | ofNat n =>
    have hr := readNat_of_not_readable (n := n) h
    rw [ofInt, read_ofNat_eq, hr]
    rfl
  | negSucc n =>
    have hr := readNat_of_not_readable (n := n + 1) h
    rw [ofInt, read, if_pos rfl, hr]
    rfl

theorem mem_ofInt {n : Int} {b : UInt8} (hb : b ∈ ofInt n) : b = minus ∨ isDigit b = true := by
  cases n with
  | ofNat n => exact .inr (isDigit_of_mem_ofNat hb)
  | negSucc n =>
    rcases List.mem_cons.mp hb with rfl | hb
    · exact .inl rfl
    · exact .inr (isDigit_of_mem_ofNat hb)

end RespStore.Numeral

namespace RespStore.Text

theorem length_ofNat (n : Nat) : (ofNat n).length = (Numeral.ofNat n).length := List.length_map _

theorem length_ofNat_mono {m n : Nat} (h : m ≤ n) : (ofNat m).length ≤ (ofNat n).length := by
  rw [length_ofNat, length_ofNat]
  exact Numeral.length_ofNat_mono h

end RespStore.Text
