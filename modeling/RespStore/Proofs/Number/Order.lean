import RespStore.Number.Binary64

/-! The order of doubles. `nan` stands outside it, so it is transitive without exceptions. -/

namespace RespStore.Binary64

variable {s t a b : Bool} {m n : Magnitude} {x y z : Binary64}

@[simp] theorem le_finite : (finite s m).le (finite t n) = decide (signed s m ≤ signed t n) := rfl

@[simp] theorem finite_le_infinite : (finite s m).le (infinite b) = !b := by cases b <;> rfl

@[simp] theorem infinite_le_finite : (infinite a).le (finite t n) = a := by cases a <;> rfl

@[simp] theorem infinite_le_infinite : (infinite a).le (infinite b) = (a || !b) := by
  cases a <;> cases b <;> rfl

@[simp] theorem nan_le : nan.le x = false := rfl

@[simp] theorem le_nan : x.le nan = false := by cases x <;> rfl

theorem le_refl (h : x ≠ nan) : x.le x = true := by
  cases x with
  | finite s m => simp
  | infinite a => simp
  | nan => exact absurd rfl h

theorem le_trans (hxy : x.le y = true) (hyz : y.le z = true) : x.le z = true := by
  cases x with
  | finite s m =>
    cases y with
    | finite t n =>
      cases z with
      | finite u k =>
        simp only [le_finite, decide_eq_true_eq] at hxy hyz ⊢
        exact Int.le_trans hxy hyz
      | infinite c => simpa using hyz
      | nan => simp at hyz
    | infinite b => cases z <;> simp_all
    | nan => simp at hxy
  | infinite a =>
    cases y with
    | finite t n => cases z <;> simp_all
    | infinite b => cases z <;> cases a <;> simp_all
    | nan => simp at hxy
  | nan => simp at hxy

end RespStore.Binary64
