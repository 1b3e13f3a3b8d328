/-!
Values bound to keys, in the order in which the keys were bound. Binding a key again changes its value
and not its place.
-/

namespace RespStore

abbrev Bindings (α β : Type) := List (α × β)

namespace Bindings

variable {α β : Type} [DecidableEq α]

def find? (k : α) : Bindings α β → Option β
  | [] => none
  | (a, b) :: r => if a = k then some b else find? k r

def put (k : α) (v : β) : Bindings α β → Bindings α β
  | [] => [(k, v)]
  | (a, b) :: r => if a = k then (a, v) :: r else (a, b) :: put k v r

def erase (k : α) (s : Bindings α β) : Bindings α β := s.filter (·.1 ≠ k)

def keys (s : Bindings α β) : List α := s.map (·.1)

def values (s : Bindings α β) : List β := s.map (·.2)

def putAll (kvs : List (α × β)) (s : Bindings α β) : Bindings α β :=
  kvs.foldl (fun s kv => s.put kv.1 kv.2) s

@[simp] theorem find?_nil (k : α) : find? k ([] : Bindings α β) = none := rfl

theorem find?_cons (k : α) (p : α × β) (s : Bindings α β) :
    find? k (p :: s) = if p.1 = k then some p.2 else find? k s := rfl

@[simp] theorem find?_put_self (k : α) (v : β) (s : Bindings α β) : find? k (put k v s) = some v := by
  induction s with
  | nil => simp [put, find?]
  | cons p s ih => by_cases h : p.1 = k <;> simp [put, find?, h, ih]

theorem find?_put_of_ne {k j : α} (h : j ≠ k) (v : β) (s : Bindings α β) :
    find? j (put k v s) = find? j s := by
  induction s with
  | nil => simp [put, find?, Ne.symm h]
  | cons p s ih =>
    by_cases hk : p.1 = k
    · simp [put, find?, hk, Ne.symm h]
    · by_cases hj : p.1 = j
      · simp [put, find?, hj, h]
      · simp [put, find?, hk, hj, ih]

@[simp] theorem find?_erase_self (k : α) (s : Bindings α β) : find? k (erase k s) = none := by
  induction s with
  | nil => rfl
  | cons p s ih => by_cases h : p.1 = k <;> simp_all [erase, find?]

theorem find?_erase_of_ne {k j : α} (h : j ≠ k) (s : Bindings α β) :
    find? j (erase k s) = find? j s := by
  induction s with
  | nil => rfl
  | cons p s ih =>
    by_cases hk : p.1 = k
    · simp_all [erase, find?, Ne.symm h]
    · by_cases hj : p.1 = j <;> simp_all [erase, find?]

theorem mem_keys_put {k j : α} {v : β} {s : Bindings α β} :
    j ∈ (put k v s).keys ↔ j = k ∨ j ∈ s.keys := by
  induction s with
  | nil => simp [put, keys]
  | cons p s ih =>
    by_cases hk : p.1 = k
    · simp [put, keys, hk]
    · simp only [keys] at ih
      simp only [put, keys, hk, if_false, List.map_cons, List.mem_cons, ih]
      constructor <;> rintro (h | h | h) <;> simp [h]

theorem nodup_put {k : α} {v : β} {s : Bindings α β} (h : s.keys.Nodup) : (put k v s).keys.Nodup := by
  induction s with
  | nil => simp [put, keys]
  | cons p s ih =>
    rw [keys, List.map_cons, List.nodup_cons] at h
    by_cases hk : p.1 = k
    · simpa [put, keys, hk] using h
    · rw [put, if_neg hk, keys, List.map_cons, List.nodup_cons]
      refine ⟨fun hm => ?_, ih h.2⟩
      rcases mem_keys_put.mp hm with rfl | hm
      · exact hk rfl
      · exact h.1 hm

theorem nodup_erase {k : α} {s : Bindings α β} (h : s.keys.Nodup) : (erase k s).keys.Nodup :=
  h.sublist (List.filter_sublist.map _)

end Bindings

end RespStore
