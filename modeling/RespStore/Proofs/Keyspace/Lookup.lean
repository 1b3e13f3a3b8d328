import Mathlib.Data.List.Perm.Basic
import Mathlib.Data.List.Nodup
import RespStore.Keyspace.Bindings

/-! Bindings whose keys are distinct are determined by their lookups, up to their order. -/

namespace RespStore.Bindings

variable {α β : Type} {s t : Bindings α β} {k : α} {v : β}

theorem nodup_filter {p : α × β → Bool} (hs : s.keys.Nodup) : (keys (s.filter p)).Nodup :=
  hs.sublist (List.filter_sublist.map _)

variable [DecidableEq α]

theorem find?_ne_none_iff : s.find? k ≠ none ↔ k ∈ s.keys := by
  induction s with
  | nil => simp [keys]
  | cons p s ih =>
    rw [find?_cons, keys, List.map_cons, List.mem_cons]
    by_cases hp : p.1 = k
    · simp [hp]
    · rw [if_neg hp, ih, or_iff_right fun h => hp h.symm]
      rfl

theorem mem_of_find? (h : s.find? k = some v) : (k, v) ∈ s := by
  induction s with
  | nil => simp at h
  | cons p s ih =>
    rw [find?_cons] at h
    split at h
    · rename_i hp
      obtain rfl := Option.some.inj h
      rw [← hp]
      exact List.mem_cons_self
    · exact List.mem_cons_of_mem _ (ih h)

theorem find?_of_mem (hs : s.keys.Nodup) (h : (k, v) ∈ s) : s.find? k = some v := by
  induction s with
  | nil => simp at h
  | cons p s ih =>
    rw [keys, List.map_cons, List.nodup_cons] at hs
    rw [find?_cons]
    rcases List.mem_cons.mp h with rfl | h
    · rw [if_pos rfl]
    · have hk : p.1 ≠ k := fun hp => hs.1 (hp ▸ List.mem_map_of_mem h)
      rw [if_neg hk, ih hs.2 h]

theorem find?_eq_some_iff (hs : s.keys.Nodup) : s.find? k = some v ↔ (k, v) ∈ s :=
  ⟨mem_of_find?, find?_of_mem hs⟩

theorem find?_filter (p : α × β → Bool) (hs : s.keys.Nodup) :
    find? k (s.filter p) = (s.find? k).filter fun v => p (k, v) := by
  ext v
  rw [find?_eq_some_iff (nodup_filter hs), List.mem_filter, Option.filter_eq_some_iff,
    find?_eq_some_iff hs]

theorem perm_of_find?_eq (hs : s.keys.Nodup) (ht : t.keys.Nodup)
    (h : ∀ k, s.find? k = t.find? k) : s.Perm t := by
  rw [List.perm_ext_iff_of_nodup hs.of_map ht.of_map]
  rintro ⟨k, v⟩
  rw [← find?_eq_some_iff hs, ← find?_eq_some_iff ht, h]

end RespStore.Bindings
