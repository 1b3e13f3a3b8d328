import Mathlib.Data.List.Induction
import RespStore.Proofs.Keyspace.Lookup

/-! Bindings and the writes that made them. What stands under a key is the value of the last write there, and the keys
stand in the order in which they came to be there: a key that is written again keeps its place, and one that was erased
comes last when it is written anew. -/

namespace RespStore

inductive Write (α β : Type) where
  | put (k : α) (v : β)
  | erase (k : α)

namespace Write

variable {α β : Type}

def key : Write α β → α
  | put k _ => k
  | erase k => k

def value? : Write α β → Option β
  | put _ v => some v
  | erase _ => none

variable [DecidableEq α]

def lastValue (k : α) (ws : List (Write α β)) : Option β := (ws.filter (·.key = k)).getLast?.bind value?

/-- There is nothing under the key after `i` writes, and something ever after. -/
def BornAt (ws : List (Write α β)) (k : α) (i : Nat) : Prop :=
  lastValue k (ws.take i) = none ∧ ∀ j, i < j → j ≤ ws.length → lastValue k (ws.take j) ≠ none

/-- One key has been there, without a break, since before the other. -/
def Older (ws : List (Write α β)) (j k : α) : Prop := ∃ m n, BornAt ws j m ∧ BornAt ws k n ∧ m < n

def applyTo (s : Bindings α β) : Write α β → Bindings α β
  | put k v => s.put k v
  | erase k => s.erase k

variable {ws : List (Write α β)} {w : Write α β} {j k : α} {i : Nat}

theorem lastValue_snoc (ws : List (Write α β)) (w : Write α β) (k : α) :
    lastValue k (ws ++ [w]) = if w.key = k then w.value? else lastValue k ws := by
  rw [lastValue, List.filter_append, List.filter_singleton]
  by_cases hk : w.key = k
  · simp [hk]
  · simp [hk, lastValue]

theorem lastValue_put (ws : List (Write α β)) (k : α) (v : β) : lastValue k (ws ++ [.put k v]) = some v :=
  (lastValue_snoc ws (.put k v) k).trans (if_pos rfl)

theorem lastValue_erase_of_ne (ws : List (Write α β)) (h : j ≠ k) :
    lastValue j (ws ++ [.erase k]) = lastValue j ws := (lastValue_snoc ws (.erase k) j).trans (if_neg (Ne.symm h))

theorem BornAt.lt (h : BornAt ws k i) (hk : lastValue k ws ≠ none) : i < ws.length := by
  by_contra hi
  have hnone := h.1
  rw [List.take_of_length_le (Nat.not_lt.mp hi)] at hnone
  exact hk hnone

theorem BornAt.snoc (h : BornAt ws k i) (hk : lastValue k ws ≠ none) (hw : lastValue k (ws ++ [w]) ≠ none) :
    BornAt (ws ++ [w]) k i := by
  have hi : i < ws.length := h.lt hk
  constructor
  · rw [List.take_append_of_le_length (Nat.le_of_lt hi)]
    exact h.1
  · intro j hij hj
    rw [List.length_append, List.length_singleton] at hj
    by_cases hlast : j ≤ ws.length
    · rw [List.take_append_of_le_length hlast]
      exact h.2 j hij hlast
    · rw [List.take_of_length_le (by rw [List.length_append, List.length_singleton]; omega)]
      exact hw

theorem bornAt_snoc (h : lastValue k ws = none) (hw : lastValue k (ws ++ [w]) ≠ none) :
    BornAt (ws ++ [w]) k ws.length := by
  constructor
  · rw [List.take_left]
    exact h
  · intro j hj hlen
    rw [List.take_of_length_le (by rw [List.length_append, List.length_singleton]; omega)]
    exact hw

end Write

namespace Bindings

variable {α β : Type} [DecidableEq α] {s : Bindings α β} {k : α} {v : β}

theorem keys_put_of_mem (h : k ∈ s.keys) : (put k v s).keys = s.keys := by
  induction s with
  | nil => cases h
  | cons p s ih =>
    by_cases hp : p.1 = k
    · simp [put, keys, hp]
    · have hk : k ∈ keys s := (List.mem_cons.mp h).resolve_left fun hk => hp hk.symm
      rw [put, if_neg hp]
      exact congrArg (p.1 :: ·) (ih hk)

theorem put_of_not_mem (h : k ∉ s.keys) : put k v s = s ++ [(k, v)] := by
  induction s with
  | nil => rfl
  | cons p s ih =>
    rw [keys, List.map_cons, List.mem_cons, not_or] at h
    rw [put, if_neg fun hp => h.1 hp.symm, ih h.2]
    rfl

theorem erase_of_not_mem (h : k ∉ s.keys) : erase k s = s := by
  refine List.filter_eq_self.mpr fun p hp => decide_eq_true fun hk => h ?_
  exact hk ▸ List.mem_map_of_mem hp

open Write

/-- Bindings are what some writes have left: each key has its last value, and older keys stand before younger ones. -/
structure Chronicles (ws : List (Write α β)) (s : Bindings α β) : Prop where
  nodup : s.keys.Nodup
  find?_eq : ∀ k, s.find? k = lastValue k ws
  born : ∀ k ∈ s.keys, ∃ i, BornAt ws k i
  older : s.keys.Pairwise (Older ws)

variable {ws : List (Write α β)} {w : Write α β}

theorem Chronicles.mem_keys_iff (h : Chronicles ws s) : k ∈ s.keys ↔ lastValue k ws ≠ none := by
  rw [← h.find?_eq, find?_ne_none_iff]

theorem find?_applyTo (s : Bindings α β) (w : Write α β) (k : α) :
    (w.applyTo s).find? k = if w.key = k then w.value? else s.find? k := by
  cases w with
  | put j v =>
    by_cases hj : j = k
    · subst hj
      exact (find?_put_self j v s).trans (if_pos rfl).symm
    · exact (find?_put_of_ne (Ne.symm hj) v s).trans (if_neg hj).symm
  | erase j =>
    by_cases hj : j = k
    · subst hj
      exact (find?_erase_self j s).trans (if_pos rfl).symm
    · exact (find?_erase_of_ne (Ne.symm hj) s).trans (if_neg hj).symm

theorem Chronicles.pairwise_snoc (h : Chronicles ws s) {ks : List α} (hsub : ks.Sublist s.keys)
    (hks : ∀ k ∈ ks, lastValue k (ws ++ [w]) ≠ none) : ks.Pairwise (Older (ws ++ [w])) := by
  refine List.Pairwise.imp_of_mem ?_ (h.older.sublist hsub)
  rintro j k hj hk ⟨m, n, hm, hn, hmn⟩
  have hjs : lastValue j ws ≠ none := h.mem_keys_iff.mp (hsub.subset hj)
  have hks' : lastValue k ws ≠ none := h.mem_keys_iff.mp (hsub.subset hk)
  exact ⟨m, n, hm.snoc hjs (hks j hj), hn.snoc hks' (hks k hk), hmn⟩

theorem Chronicles.older_put (h : Chronicles ws s) (k : α) (v : β) :
    (put k v s).keys.Pairwise (Older (ws ++ [.put k v])) := by
  have hthere : ∀ j ∈ s.keys, lastValue j (ws ++ [.put k v]) ≠ none := by
    intro j hj
    rw [lastValue_snoc]
    split
    · exact Option.some_ne_none v
    · exact h.mem_keys_iff.mp hj
  have hkept := h.pairwise_snoc (List.Sublist.refl _) hthere
  by_cases hk : k ∈ s.keys
  · rw [keys_put_of_mem hk]
    exact hkept
  · have hkeys : (put k v s).keys = s.keys ++ [k] := by rw [put_of_not_mem hk, keys, List.map_append]; rfl
    rw [hkeys]
    refine List.pairwise_append.mpr ⟨hkept, List.pairwise_singleton _ _, fun j hj k' hk' => ?_⟩
    obtain rfl := List.mem_singleton.mp hk'
    obtain ⟨i, hi⟩ := h.born j hj
    have hj' : lastValue j ws ≠ none := h.mem_keys_iff.mp hj
    have hnew : lastValue k' ws = none := by
      by_contra hsome
      exact hk (h.mem_keys_iff.mpr hsome)
    have hput : lastValue k' (ws ++ [.put k' v]) ≠ none := by
      rw [lastValue_put]
      exact Option.some_ne_none v
    exact ⟨i, ws.length, hi.snoc hj' (hthere j hj), bornAt_snoc hnew hput, hi.lt hj'⟩

theorem Chronicles.older_erase (h : Chronicles ws s) (k : α) :
    (erase k s).keys.Pairwise (Older (ws ++ [.erase k])) := by
  refine h.pairwise_snoc (List.filter_sublist.map _) fun j hj => ?_
  have hne : j ≠ k := by
    obtain ⟨p, hp, rfl⟩ := List.mem_map.mp hj
    exact of_decide_eq_true (List.mem_filter.mp hp).2
  have hj' : j ∈ s.keys := (List.filter_sublist.map _).subset hj
  rw [lastValue_erase_of_ne ws hne]
  exact h.mem_keys_iff.mp hj'

theorem Chronicles.write (h : Chronicles ws s) (w : Write α β) : Chronicles (ws ++ [w]) (w.applyTo s) := by
  have hfind : ∀ k, (w.applyTo s).find? k = lastValue k (ws ++ [w]) := fun k => by
    rw [find?_applyTo, lastValue_snoc, h.find?_eq]
  refine ⟨?_, hfind, fun k hk => ?_, ?_⟩
  · cases w with
    | put k v => exact nodup_put h.nodup
    | erase k => exact nodup_erase h.nodup
  · have hnow : lastValue k (ws ++ [w]) ≠ none := by
      rw [← hfind, find?_ne_none_iff]
      exact hk
    by_cases hbefore : lastValue k ws = none
    · exact ⟨ws.length, bornAt_snoc hbefore hnow⟩
    · obtain ⟨i, hi⟩ := h.born k (h.mem_keys_iff.mpr hbefore)
      exact ⟨i, hi.snoc hbefore hnow⟩
  · cases w with
    | put k v => exact h.older_put k v
    | erase k => exact h.older_erase k

theorem chronicles_nil : Chronicles ([] : List (Write α β)) [] where
  nodup := List.nodup_nil
  find?_eq _ := rfl
  born k hk := by cases hk
  older := List.Pairwise.nil

theorem chronicles_foldl (ws : List (Write α β)) : Chronicles ws (ws.foldl applyTo []) := by
  induction ws using List.reverseRecOn with
  | nil => exact chronicles_nil
  | append_singleton ws w ih =>
    rw [List.foldl_append]
    exact ih.write w

theorem Chronicles.map_values {γ : Type} (h : Chronicles ws s) (f : α → Option β → γ) :
    (s.map fun p => f p.1 (some p.2)) = s.keys.map fun k => f k (lastValue k ws) := by
  rw [keys, List.map_map]
  refine List.map_congr_left fun p hp => ?_
  have hvalue : lastValue p.1 ws = some p.2 := by rw [← h.find?_eq, find?_of_mem h.nodup hp]
  rw [Function.comp_apply, hvalue]

end Bindings

end RespStore
