import RespStore.Command.Argument
import RespStore.Keyspace.Lifetime
import RespStore.Proofs.Number.Exact

/-! What remains of a lifetime can be told. A deadline set on the clock lies within rounding of the sum, so as
long as it has not been reached its distance from any later time is a number. -/

namespace RespStore

open Magnitude (greatest margin nearest)

namespace Binary64

variable {s t : Bool} {m n : Magnitude}

theorem signed_bounds (s : Bool) (m : Magnitude) :
    -(greatest : Int) ≤ signed s m ∧ signed s m ≤ greatest := by
  have hm : m.units ≤ greatest := m.fits.1
  cases s <;> simp only [signed, Bool.false_eq_true, if_false, if_true] <;> omega

theorem exists_add {u : Int} (hu : signed s m + signed t n = u) (h : u.natAbs < greatest + margin) :
    ∃ b k, (finite s m).add (finite t n) = finite b k ∧ signed b k ≤ u + margin := by
  obtain ⟨k, hk⟩ := Magnitude.exists_nearest h
  have hnear := Magnitude.units_near hk
  have hspacing := Nat.le_of_dvd (Nat.mul_pos (by decide) Magnitude.margin_pos) (Magnitude.spacing_dvd h)
  have hadd : (finite s m).add (finite t n) = finite (if u = 0 then s && t else u < 0) k := by
    rw [add, hu, ofUnits, hk]
    rfl
  refine ⟨_, k, hadd, ?_⟩
  by_cases h0 : u = 0
  · have hzero : k.units ≤ 2 * u.natAbs := Magnitude.units_le_two_mul hk
    have hsigned : signed (if u = 0 then s && t else decide (u < 0)) k = 0 := by
      have hk0 : k.units = 0 := by omega
      simp [signed, hk0]
    rw [hsigned, h0]
    omega
  · rw [if_neg h0]
    by_cases hn : u < 0
    · simp only [hn, decide_true, signed, if_true]
      omega
    · simp only [hn, decide_false, signed, Bool.false_eq_true, if_false]
      omega

theorem exists_ofInt? {i : Int} (h0 : 0 ≤ i) (hi : i ≤ Argument.greatest) :
    ∃ m, ofInt? i = some (finite false m) ∧ m.units < margin := by
  have hle : i.natAbs * one ≤ 2 ^ 63 * one := Nat.mul_le_mul_right _ (by unfold Argument.greatest at hi; omega)
  have hone : 2 * (2 ^ 63 * one) < margin := by decide +kernel
  obtain ⟨m, hm⟩ : ∃ m, nearest (i.natAbs * one) 1 = some m := Magnitude.exists_nearest (by omega)
  have hunits : m.units ≤ 2 * (i.natAbs * one) := Magnitude.units_le_two_mul hm
  have hneg : decide (i < 0) = false := decide_eq_false (by omega)
  refine ⟨m, ?_, by omega⟩
  rw [ofInt?, hm, hneg]
  rfl

theorem ofInt?_zero : ofInt? 0 = some zero := by decide +kernel

theorem add_zero_le {x : Binary64} (hx : x ≠ nan) : (x.add zero).le x = true := by
  cases x with
  | nan => exact absurd rfl hx
  | infinite s => exact le_refl hx
  | finite s m =>
    have hzero : signed false Magnitude.zero = 0 := rfl
    have hadd : (finite s m).add zero = finite (if signed s m = 0 then s && false else signed s m < 0) m := by
      rw [zero, add, hzero, Int.add_zero, ofUnits, natAbs_signed, Magnitude.nearest_units]
      rfl
    have hsigned : signed (if signed s m = 0 then s && false else signed s m < 0) m = signed s m :=
      signed_of_natAbs (natAbs_signed s m).symm fun hne => by rw [if_neg hne, decide_eq_true_eq]
    rw [hadd, le_finite, hsigned]
    exact decide_eq_true (Int.le_refl _)

end Binary64

namespace Keyspace

def Tellable (now d : Instant) : Prop :=
  ∀ later, now.le later = true → d.le later = true ∨ ∃ n, remaining later d = .ok n

open Binary64

variable {now later d : Instant}

theorem Tellable.at_later (h : Tellable now d) (hl : now.le later = true) : Tellable later d :=
  fun t ht => h t (Binary64.le_trans hl ht)

theorem tellable_infinite {s : Bool} : Tellable (infinite s) (infinite s) := fun _ hl => .inl hl

theorem tellable_finite {s t : Bool} {m k : Magnitude} (h : signed t k ≤ signed s m + 2 * margin) :
    Tellable (finite s m) (finite t k) := by
  intro later hl
  cases later with
  | nan => simp at hl
  | infinite b => exact .inl (by simpa using hl)
  | finite b l =>
    rw [le_finite, decide_eq_true_eq] at hl
    rw [le_finite, decide_eq_true_eq]
    by_cases hd : signed t k ≤ signed b l
    · exact .inl hd
    · right
      have hsum : signed t k + signed (!b) l = signed t k - signed b l := by rw [signed_not]; omega
      have hmargin := Magnitude.two_mul_margin_le
      have hlt : (signed t k - signed b l).natAbs < greatest + margin := by
        have hpos := Magnitude.margin_pos
        omega
      obtain ⟨c, j, hsub, -⟩ := exists_add hsum hlt
      refine ⟨max 0 (ceil c j), ?_⟩
      rw [remaining, sub, neg, hsub]

theorem exists_finite_of_remaining {n : Int} (h : remaining now d = .ok n) :
    ∃ negative m, d.sub now = .finite negative m := by
  unfold remaining at h
  split at h
  · rename_i negative m hsub
    exact ⟨negative, m, hsub⟩
  · cases h
  · cases h

theorem untold_of_remaining {x : Failure} (h : remaining now d = .error x) :
    (∃ f, x = .fault f) ∧ ∀ negative m, d.sub now ≠ .finite negative m := by
  unfold remaining at h
  split at h
  · cases h
  · rename_i hsub
    exact ⟨⟨_, (Except.error.inj h).symm⟩, by simp [hsub]⟩
  · rename_i hsub
    exact ⟨⟨_, (Except.error.inj h).symm⟩, by simp [hsub]⟩

theorem deadlineAfter_cases (now : Instant) (seconds : Int) :
    (∃ t, ofInt? seconds = some t ∧ deadlineAfter now seconds = .ok (now.add t)) ∨
      ofInt? seconds = none ∧ deadlineAfter now seconds = .error (.fault .lifetimeTooLarge) := by
  -- The function is unfolded by itself, for next to its arguments the sum would be evaluated at once.
  generalize hf : deadlineAfter = f
  delta deadlineAfter at hf
  subst hf
  dsimp only
  cases ofInt? seconds with
  | none => exact .inr ⟨rfl, rfl⟩
  | some t => exact .inl ⟨t, rfl, rfl⟩

theorem deadlineAfter_of_ofInt? {t : Instant} {seconds : Int} (h : ofInt? seconds = some t) :
    deadlineAfter now seconds = .ok (now.add t) := by
  rcases deadlineAfter_cases now seconds with ⟨u, hu, hd⟩ | ⟨hnone, -⟩
  · obtain rfl := Option.some.inj (h.symm.trans hu)
    exact hd
  · cases h.symm.trans hnone

/-- No lifetime that can be asked for is too large, whatever the clock shows. -/
theorem deadlineAfter_ok {seconds : Int} (h0 : 0 ≤ seconds) (hs : seconds ≤ Argument.greatest) :
    ∃ d, deadlineAfter now seconds = .ok d := by
  obtain ⟨t, ht, -⟩ := exists_ofInt? h0 hs
  exact ⟨_, deadlineAfter_of_ofInt? ht⟩

theorem exists_deadlineAfter (hnow : now ≠ .nan) {seconds : Int} (h0 : 0 ≤ seconds)
    (hs : seconds ≤ Argument.greatest) :
    ∃ d, deadlineAfter now seconds = .ok d ∧ Tellable now d := by
  obtain ⟨t, ht, htm⟩ := exists_ofInt? h0 hs
  refine ⟨_, deadlineAfter_of_ofInt? ht, ?_⟩
  cases now with
  | nan => exact absurd rfl hnow
  | infinite s => exact tellable_infinite
  | finite s m =>
    have hm := signed_bounds s m
    have hsum : signed s m + signed false t = signed s m + t.units := by rw [signed_false]
    have hlt : (signed s m + t.units).natAbs < greatest + margin := by omega
    obtain ⟨b, k, hadd, hle⟩ := exists_add hsum hlt
    rw [hadd]
    exact tellable_finite (by omega)

end Keyspace

end RespStore
