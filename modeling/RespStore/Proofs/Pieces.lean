import RespStore.Pieces

/-! Pieces, said without the function that cuts them. Joined by what parts them they are the list again; words are
what is left of a line between its blanks. Either way there is only one way to cut. -/

namespace RespStore.Pieces

variable {α : Type} {parts : α → Bool} {xs : List α} {ps : List (List α)}

theorem split_eq_splitOnP (parts : α → Bool) (xs : List α) : split parts xs = xs.splitOnP parts := by
  induction xs with
  | nil => rfl
  | cons a r ih =>
    obtain ⟨p, qs, hr⟩ := List.exists_cons_of_ne_nil (List.splitOnP_ne_nil parts r)
    rw [split_cons, List.splitOnP_cons_eq_if_modifyHead, ih, hr]
    rfl

/-- The pieces of a list: joined by the element that parts them they are the list, and none of them holds it. -/
structure PartedBy (a : α) (ps : List (List α)) (xs : List α) : Prop where
  ne_nil : ps ≠ []
  not_mem : ∀ p ∈ ps, a ∉ p
  joined : [a].intercalate ps = xs

theorem PartedBy.mem {a x : α} {p : List α} (h : PartedBy a ps xs) (hp : p ∈ ps) (hx : x ∈ p) : x ∈ xs := by
  rw [← h.joined]
  clear h
  induction ps with
  | nil => cases hp
  | cons q qs ih =>
    cases qs with
    | nil =>
      obtain rfl := List.mem_singleton.mp hp
      rwa [List.intercalate_singleton]
    | cons r rs =>
      rw [List.intercalate_cons_cons]
      rcases List.mem_cons.mp hp with rfl | hp
      · exact List.mem_append_left _ (List.mem_append_left _ hx)
      · exact List.mem_append_right _ (ih hp)

theorem PartedBy.flatMap {β : Type} {a : α} {b : β} {f : α → List β} (h : PartedBy a ps xs) (ha : f a = [b])
    (hf : ∀ x ∈ xs, x ≠ a → b ∉ f x) : PartedBy b (ps.map (·.flatMap f)) (xs.flatMap f) where
  ne_nil := by simpa using h.ne_nil
  not_mem p hp hb := by
    obtain ⟨q, hq, rfl⟩ := List.mem_map.mp hp
    obtain ⟨x, hx, hb⟩ := List.mem_flatMap.mp hb
    exact hf x (h.mem hq hx) (fun hxa => h.not_mem q hq (hxa ▸ hx)) hb
  joined := by
    rw [← h.joined]
    clear hf h
    induction ps with
    | nil => rfl
    | cons q qs ih =>
      cases qs with
      | nil => simp
      | cons r rs =>
        rw [List.map_cons] at ih
        simp [List.intercalate_cons_cons, ih, ha]

section Parted

variable [DecidableEq α] {a : α}

theorem split_eq_splitOn (a : α) (xs : List α) : split (· == a) xs = xs.splitOn a := split_eq_splitOnP _ xs

theorem partedBy_split (a : α) (xs : List α) : PartedBy a (split (· == a) xs) xs where
  ne_nil := split_ne_nil _ xs
  not_mem p hp ha := by
    have hparts := not_parts_of_mem_split hp ha
    exact absurd (BEq.refl a) (Bool.eq_false_iff.mp hparts)
  joined := by rw [split_eq_splitOn, List.intercalate_splitOn]

theorem PartedBy.eq_split (h : PartedBy a ps xs) : ps = split (· == a) xs := by
  rw [split_eq_splitOn, ← h.joined, List.splitOn_intercalate a h.not_mem h.ne_nil]

end Parted

/-- The words of a line in their order. A blank belongs to none of them, and a word goes on to the next blank or to
the end. -/
inductive Spaced (blank : α → Bool) : List α → List (List α) → Prop
  | nil : Spaced blank [] []
  | blank {a : α} {r : List α} {ws : List (List α)} : blank a = true → Spaced blank r ws → Spaced blank (a :: r) ws
  | word {w r : List α} {ws : List (List α)} : w ≠ [] → (∀ a ∈ w, blank a = false) →
      (∀ a ∈ r.head?, blank a = true) → Spaced blank r ws → Spaced blank (w ++ r) (w :: ws)

variable {blank : α → Bool} {ws : List (List α)}

theorem words_cons_of_blank {a : α} (h : blank a = true) (r : List α) : words blank (a :: r) = words blank r := by
  rw [words, split_cons, if_pos h]
  rfl

theorem words_append {w r : List α} (hne : w ≠ []) (hw : ∀ a ∈ w, blank a = false)
    (hr : ∀ a ∈ r.head?, blank a = true) : words blank (w ++ r) = w :: words blank r := by
  have hkept : (!w.isEmpty) = true := by simpa using hne
  cases r with
  | nil =>
    rw [List.append_nil, words, split_eq_splitOnP, List.splitOnP_eq_singleton hw]
    exact List.filter_cons_of_pos hkept
  | cons a r =>
    have ha : blank a = true := hr a rfl
    rw [words_cons_of_blank ha, words, split_eq_splitOnP, List.splitOnP_append_cons_of_forall_mem hw a ha, words,
      split_eq_splitOnP]
    exact List.filter_cons_of_pos hkept

theorem Spaced.eq_words (h : Spaced blank xs ws) : ws = words blank xs := by
  induction h with
  | nil => rfl
  | blank ha _ ih => rw [words_cons_of_blank ha, ih]
  | word hne hw hr _ ih => rw [words_append hne hw hr, ih]

theorem exists_spaced (blank : α → Bool) (xs : List α) : ∃ ws, Spaced blank xs ws := by
  induction xs with
  | nil => exact ⟨[], .nil⟩
  | cons a r ih =>
    obtain ⟨ws, hr⟩ := ih
    cases ha : blank a with
    | true => exact ⟨ws, .blank ha hr⟩
    | false =>
      -- Alone it is a word, unless one begins right after it.
      have halone : ∀ b ∈ [a], blank b = false := List.forall_mem_singleton.mpr ha
      cases hr with
      | nil => exact ⟨[[a]], .word (List.cons_ne_nil a []) halone (by simp) .nil⟩
      | @blank b r ws hb h => exact ⟨[a] :: ws, .word (List.cons_ne_nil a []) halone (by simpa using hb) (.blank hb h)⟩
      | @word w r ws _ hw hr h =>
        exact ⟨(a :: w) :: ws, .word (List.cons_ne_nil a w) (List.forall_mem_cons.mpr ⟨ha, hw⟩) hr h⟩

theorem spaced_iff : Spaced blank xs ws ↔ ws = words blank xs := by
  constructor
  · exact Spaced.eq_words
  · rintro rfl
    obtain ⟨vs, h⟩ := exists_spaced blank xs
    rwa [← h.eq_words]

theorem Spaced.blank_of_nil (h : Spaced blank xs ws) (hws : ws = []) : ∀ a ∈ xs, blank a = true := by
  induction h with
  | nil => simp
  | blank ha _ ih => exact List.forall_mem_cons.mpr ⟨ha, ih hws⟩
  | word => cases hws

theorem words_eq_nil_iff : words blank xs = [] ↔ ∀ a ∈ xs, blank a = true := by
  constructor
  · intro h
    exact (spaced_iff.mpr rfl).blank_of_nil h
  · intro h
    induction xs with
    | nil => rfl
    | cons a r ih =>
      rw [List.forall_mem_cons] at h
      rw [words_cons_of_blank h.1, ih h.2]

end RespStore.Pieces
