import Mathlib.Tactic.ByContra
import RespStore.Number.Binary64

/-! How far rounding goes. A whole number of units is rounded by half a spacing at most, and it is rounded to
some number unless it lies half a spacing beyond the greatest one. -/

namespace RespStore.Magnitude

def spacing (n : Nat) : Nat := 2 ^ (n.log2 - 52)

@[irreducible]
def margin : Nat := 2 ^ 2044

theorem margin_pos : 0 < margin := by decide +kernel

theorem two_mul_margin_le : 2 * margin ≤ greatest := by decide +kernel

theorem two_mul_margin {k : Nat} (h : 2045 = k) : 2 * margin = 2 ^ k := by
  -- Stated of a variable, since a use with the number in it would have the power evaluated.
  subst h
  decide +kernel

theorem greatest_add_margin_lt : greatest + margin < 2 ^ 2098 := by decide +kernel

theorem le_greatest : 2 ^ 2097 ≤ greatest := by decide +kernel

theorem dvd_greatest : 2 * margin ∣ greatest := ⟨2 ^ 53 - 1, by decide +kernel⟩

theorem spacing_pos (n : Nat) : 0 < spacing n := Nat.two_pow_pos _

theorem spacing_zero : spacing 0 = 1 := rfl

variable {n : Nat} {m : Magnitude}

theorem spacing_le (h : n ≠ 0) : spacing n ≤ n := by
  have hpow : spacing n ≤ 2 ^ n.log2 := Nat.pow_le_pow_right (by decide) (Nat.sub_le _ _)
  exact Nat.le_trans hpow (Nat.log2_self_le h)

theorem log2_le_of_lt (h : n < greatest + margin) : n.log2 ≤ 2097 := by
  by_cases hn : n = 0
  · rw [hn]
    exact Nat.zero_le _
  · have hlog : n.log2 < 2098 := (Nat.log2_lt hn).mpr (Nat.lt_trans h greatest_add_margin_lt)
    omega

theorem spacing_dvd (h : n < greatest + margin) : spacing n ∣ 2 * margin := by
  have hlog := log2_le_of_lt h
  obtain ⟨k, hk⟩ : ∃ k, 2045 = n.log2 - 52 + k := Nat.exists_eq_add_of_le (by omega)
  rw [two_mul_margin hk, Nat.pow_add]
  exact Nat.dvd_mul_right _ _

theorem spacing_of_greatest_le (hn : greatest ≤ n) (h : n < greatest + margin) :
    spacing n = 2 * margin := by
  have hne : n ≠ 0 := Nat.ne_zero_of_lt (Nat.lt_of_lt_of_le (Nat.two_pow_pos _) (Nat.le_trans le_greatest hn))
  have hlow : 2097 ≤ n.log2 := (Nat.le_log2 hne).mpr (Nat.le_trans le_greatest hn)
  have hlog : n.log2 = 2097 := Nat.le_antisymm (log2_le_of_lt h) hlow
  exact (two_mul_margin (by omega)).symm

theorem roundedQuotient_mul {d : Nat} (hd : 0 < d) :
    2 * (roundedQuotient n d * d) ≤ 2 * n + d ∧ 2 * n ≤ 2 * (roundedQuotient n d * d) + d := by
  have hdiv : n / d * d + n % d = n := Nat.div_add_mod' n d
  have hmod : n % d < d := Nat.mod_lt n hd
  unfold roundedQuotient
  split
  · rw [Nat.add_mul, Nat.one_mul]
    omega
  · omega

theorem units_nearest (h : nearest n 1 = some m) : m.units = roundedQuotient n (spacing n) * spacing n := by
  unfold nearest at h
  simp only [Nat.div_one, Nat.one_mul] at h
  split at h
  · obtain rfl := Option.some.inj h
    rfl
  · cases h

theorem units_near (h : nearest n 1 = some m) :
    2 * m.units ≤ 2 * n + spacing n ∧ 2 * n ≤ 2 * m.units + spacing n := by
  rw [units_nearest h]
  exact roundedQuotient_mul (spacing_pos n)

theorem units_le_two_mul (h : nearest n 1 = some m) : m.units ≤ 2 * n := by
  have hm := (units_near h).1
  by_cases hn : n = 0
  · have hs : spacing n = 1 := by rw [hn, spacing_zero]
    omega
  · have hs : spacing n ≤ n := spacing_le hn
    omega

theorem rounded_le_greatest (h : n < greatest + margin) :
    roundedQuotient n (spacing n) * spacing n ≤ greatest := by
  -- The greatest number is on the grid, so what exceeds it does by a whole spacing, of which rounding adds half.
  have hd : spacing n ∣ greatest := Nat.dvd_trans (spacing_dvd h) dvd_greatest
  obtain ⟨g, hg⟩ := hd
  have hround := (roundedQuotient_mul (n := n) (spacing_pos n)).1
  by_contra hgt
  have hq : g < roundedQuotient n (spacing n) := by
    rw [hg, Nat.mul_comm (spacing n)] at hgt
    exact Nat.lt_of_mul_lt_mul_right (Nat.not_le.mp hgt)
  have hnext : g * spacing n + spacing n ≤ roundedQuotient n (spacing n) * spacing n := by
    rw [← Nat.succ_mul]
    exact Nat.mul_le_mul_right _ hq
  rw [Nat.mul_comm] at hg
  have hs : spacing n = 2 * margin := spacing_of_greatest_le (by omega) h
  omega

theorem exists_nearest (h : n < greatest + margin) : ∃ m, nearest n 1 = some m := by
  have hle := rounded_le_greatest h
  unfold spacing at hle
  refine ⟨_, dif_pos ?_⟩
  simpa only [Nat.div_one, Nat.one_mul] using hle

theorem spacing_dvd_units (m : Magnitude) : spacing m.units ∣ m.units := by
  obtain ⟨s, e, hs, hm⟩ := m.fits.2
  by_cases hzero : m.units = 0
  · rw [hzero]
    exact Nat.dvd_zero _
  by_cases htop : s = 2 ^ 53
  · have hpow : m.units = 2 ^ (53 + e) := by rw [hm, htop, Nat.pow_add]
    rw [spacing, hpow, Nat.log2_two_pow]
    exact Nat.pow_dvd_pow 2 (by omega)
  · have hlt : m.units < 2 ^ (53 + e) := by
      rw [hm, Nat.pow_add]
      exact Nat.mul_lt_mul_of_pos_right (Nat.lt_of_le_of_ne hs htop) (Nat.two_pow_pos e)
    have hlog : m.units.log2 < 53 + e := (Nat.log2_lt hzero).mpr hlt
    have hdvd : 2 ^ (m.units.log2 - 52) ∣ 2 ^ e := Nat.pow_dvd_pow 2 (by omega)
    rw [spacing]
    exact Nat.dvd_trans hdvd (hm ▸ Nat.dvd_mul_left _ _)

theorem nearest_units (m : Magnitude) : nearest m.units 1 = some m := by
  have hlt : m.units < greatest + margin := Nat.lt_of_le_of_lt m.fits.1 (Nat.lt_add_of_pos_right margin_pos)
  obtain ⟨k, hk⟩ := exists_nearest hlt
  obtain ⟨q, hq⟩ := spacing_dvd_units m
  have hmod : m.units % spacing m.units = 0 := Nat.mod_eq_zero_of_dvd ⟨q, hq⟩
  have hround : roundedQuotient m.units (spacing m.units) = m.units / spacing m.units := by
    have hpos := spacing_pos m.units
    rw [roundedQuotient, hmod, if_neg (by omega)]
  have hunits : k.units = m.units := by
    rw [units_nearest hk, hround]
    exact Nat.div_mul_cancel ⟨q, hq⟩
  obtain ⟨ku, kfits⟩ := k
  obtain rfl : ku = m.units := hunits
  exact hk

end RespStore.Magnitude
