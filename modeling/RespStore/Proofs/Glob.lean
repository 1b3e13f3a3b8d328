import RespStore.Glob
import RespStore.Proofs.Pieces

/-! Placing the pieces as far left as they go finds every way to place them: whatever stands behind a piece that is
placed somewhere also stands behind the leftmost place of that piece. -/

namespace RespStore.Glob

variable {α : Type} {p k r : List α} {ps : List (List α)}

theorem covers_cons_iff (hps : ps ≠ []) : Covers (p :: ps) k ↔ ∃ x t, p ++ (x ++ t) = k ∧ Covers ps t := by
  constructor
  · intro h
    cases h with
    | single => exact absurd rfl hps
    | @star _ x t _ rest => exact ⟨x, t, (List.append_assoc p x t).symm, rest⟩
  · rintro ⟨x, t, rfl, ht⟩
    rw [← List.append_assoc]
    exact .star ht

theorem covers_singleton_iff : Covers [p] k ↔ k = p := by
  constructor
  · intro h
    cases h with
    | single => rfl
    | star rest => cases rest
  · rintro rfl
    exact .single k

theorem Covers.flatMap {β : Type} (f : α → List β) (h : Covers ps k) : Covers (ps.map (·.flatMap f)) (k.flatMap f) := by
  induction h with
  | single p => exact .single _
  | @star p x k ps _ ih =>
    rw [List.flatMap_append, List.flatMap_append]
    exact .star ih

theorem Covers.ne_nil (h : Covers ps k) : ps ≠ [] := by cases h <;> exact List.cons_ne_nil _ _

variable [DecidableEq α]

theorem exists_of_afterFirst (h : afterFirst p k = some r) : ∃ x, x ++ (p ++ r) = k := by
  induction k with
  | nil =>
    rw [afterFirst] at h
    split at h
    · rename_i hp
      obtain rfl := Option.some.inj h
      exact ⟨[], by rw [hp]; rfl⟩
    · cases h
  | cons a k ih =>
    rw [afterFirst] at h
    split at h
    · rename_i hp
      obtain ⟨t, ht⟩ := List.isPrefixOf_iff_prefix.mp hp
      rw [← ht, List.drop_left] at h
      obtain rfl := Option.some.inj h
      exact ⟨[], ht⟩
    · obtain ⟨x, rfl⟩ := ih h
      exact ⟨a :: x, rfl⟩

theorem afterFirst_leftmost (x : List α) (hk : x ++ (p ++ r) = k) : ∃ t, afterFirst p k = some t ∧ r <:+ t := by
  induction k generalizing x with
  | nil =>
    simp only [List.append_eq_nil_iff] at hk
    obtain ⟨-, rfl, rfl⟩ := hk
    exact ⟨[], if_pos rfl, List.suffix_rfl⟩
  | cons a k ih =>
    rw [afterFirst]
    by_cases hp : p.isPrefixOf (a :: k) = true
    · rw [if_pos hp]
      refine ⟨_, rfl, ?_⟩
      have hr : r <:+ a :: k := ⟨x ++ p, by rw [List.append_assoc, hk]⟩
      have hlength : x.length + (p.length + r.length) = (a :: k).length := by rw [← hk]; simp
      apply List.suffix_of_suffix_length_le hr (List.drop_suffix p.length (a :: k))
      rw [List.length_drop]
      omega
    · rw [if_neg hp]
      cases x with
      | nil => exact absurd (List.isPrefixOf_iff_prefix.mpr ⟨r, hk⟩) hp
      | cons b x => exact ih x (List.cons.inj hk).2

theorem acceptsRest_iff (hps : ps ≠ []) : acceptsRest ps k = true ↔ ∃ x t, x ++ t = k ∧ Covers ps t := by
  induction ps generalizing k with
  | nil => exact absurd rfl hps
  | cons p ps ih =>
    cases ps with
    | nil =>
      rw [acceptsRest, List.isSuffixOf_iff_suffix]
      constructor
      · rintro ⟨x, hx⟩
        exact ⟨x, p, hx, .single p⟩
      · rintro ⟨x, t, hx, ht⟩
        obtain rfl := covers_singleton_iff.mp ht
        exact ⟨x, hx⟩
    | cons q qs =>
      have hqs : q :: qs ≠ [] := List.cons_ne_nil q qs
      simp only [acceptsRest]
      constructor
      · intro h
        split at h
        · rename_i r hr
          obtain ⟨x, rfl⟩ := exists_of_afterFirst hr
          obtain ⟨y, t, rfl, ht⟩ := (ih hqs).mp h
          exact ⟨x, p ++ (y ++ t), rfl, (covers_cons_iff hqs).mpr ⟨y, t, rfl, ht⟩⟩
        · cases h
      · rintro ⟨x, s, hk, hs⟩
        obtain ⟨y, t, rfl, ht⟩ := (covers_cons_iff hqs).mp hs
        -- Behind the leftmost place the rest of the pieces fit as well, after a longer run.
        obtain ⟨r, hr, z, rfl⟩ := afterFirst_leftmost x hk
        rw [hr]
        exact (ih hqs).mpr ⟨z ++ y, t, List.append_assoc z y t, ht⟩

theorem places_iff : places ps k = true ↔ Covers ps k := by
  cases ps with
  | nil => exact ⟨fun h => absurd h Bool.false_ne_true, fun h => absurd rfl h.ne_nil⟩
  | cons p ps =>
    rw [places, Bool.and_eq_true, List.isPrefixOf_iff_prefix]
    cases ps with
    | nil =>
      rw [covers_singleton_iff, acceptsRest, List.isEmpty_iff]
      constructor
      · rintro ⟨⟨t, rfl⟩, ht⟩
        rw [List.drop_left] at ht
        rw [ht, List.append_nil]
      · rintro rfl
        exact ⟨List.prefix_rfl, List.drop_length⟩
    | cons q qs =>
      have hqs : q :: qs ≠ [] := List.cons_ne_nil q qs
      rw [covers_cons_iff hqs, acceptsRest_iff hqs]
      constructor
      · rintro ⟨⟨s, rfl⟩, x, t, hs, ht⟩
        rw [List.drop_left] at hs
        exact ⟨x, t, by rw [hs], ht⟩
      · rintro ⟨x, t, rfl, ht⟩
        exact ⟨List.prefix_append p _, x, t, (List.drop_left ..).symm, ht⟩

theorem accepts_eq_places (star : α) (pattern key : List α) :
    accepts star pattern key = places (Pieces.split (· == star) pattern) key := by
  unfold accepts
  split
  · rename_i hpattern
    rw [hpattern]
    simp [Pieces.split, places, acceptsRest]
  · split
    · rfl
    · rename_i hstar
      have hpieces : Pieces.split (· == star) pattern = [pattern] := by
        rw [Pieces.split_eq_splitOn]
        exact List.splitOn_eq_singleton hstar
      rw [hpieces, Bool.eq_iff_iff, places_iff, covers_singleton_iff, beq_iff_eq]

/-- The language of a pattern, by its pieces between the stars. -/
theorem accepts_iff {star : α} {pattern key : List α} :
    accepts star pattern key = true ↔ ∃ pieces, Pieces.PartedBy star pieces pattern ∧ Covers pieces key := by
  rw [accepts_eq_places, places_iff]
  constructor
  · intro h
    exact ⟨_, Pieces.partedBy_split star pattern, h⟩
  · rintro ⟨pieces, hpieces, h⟩
    rwa [← hpieces.eq_split]

end RespStore.Glob

namespace RespStore.Text

/-- A key matches a pattern exactly if runs in place of the stars make the pattern the key. The search for the pieces
says the same of every pattern, a star alone and a pattern without stars among them. -/
theorem matchesGlob_iff_covers (pattern key : Text) :
    (pattern.matchesGlob key = true ↔ ∃ pieces, Pieces.PartedBy star pieces pattern ∧ Glob.Covers pieces key) ∧
      pattern.matchesGlob key = Glob.places (Pieces.split (· == star) pattern) key :=
  ⟨Glob.accepts_iff, Glob.accepts_eq_places star pattern key⟩

example : (ofString "a*a").matchesGlob (ofString "a") = false := by decide

end RespStore.Text
