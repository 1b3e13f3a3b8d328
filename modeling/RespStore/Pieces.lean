/-!
The pieces of a list. Between the elements that part it there is one piece more than there are parting
elements, and some of them may be empty; pieces cut to a length leave nothing out, and none is empty.
-/

namespace RespStore.Pieces

variable {α : Type}

def consHead (a : α) : List (List α) → List (List α)
  | [] => [[a]]
  | p :: ps => (a :: p) :: ps

def split (parts : α → Bool) (xs : List α) : List (List α) :=
  xs.foldr (fun a ps => if parts a then [] :: ps else consHead a ps) [[]]

@[simp] theorem split_nil (parts : α → Bool) : split parts [] = [[]] := rfl

theorem split_cons (parts : α → Bool) (a : α) (r : List α) :
    split parts (a :: r) = if parts a then [] :: split parts r else consHead a (split parts r) := rfl

theorem consHead_ne_nil (a : α) (ps : List (List α)) : consHead a ps ≠ [] := by
  cases ps <;> simp [consHead]

theorem split_ne_nil (parts : α → Bool) (xs : List α) : split parts xs ≠ [] := by
  cases xs with
  | nil => simp
  | cons a r =>
    rw [split_cons]
    split
    · simp
    · exact consHead_ne_nil _ _

theorem not_parts_of_mem_split {parts : α → Bool} {xs : List α} {p : List α} {a : α}
    (hp : p ∈ split parts xs) (ha : a ∈ p) : parts a = false := by
  induction xs generalizing p with
  | nil => simp_all
  | cons b r ih =>
    rw [split_cons] at hp
    split at hp
    · rcases List.mem_cons.mp hp with rfl | hp
      · simp at ha
      · exact ih hp ha
    · rename_i hb
      cases hs : split parts r with
      | nil => exact absurd hs (split_ne_nil parts r)
      | cons q qs =>
        rw [hs] at hp ih
        simp only [consHead, List.mem_cons] at hp
        rcases hp with rfl | hp
        · rcases List.mem_cons.mp ha with rfl | ha
          · simpa using hb
          · exact ih List.mem_cons_self ha
        · exact ih (List.mem_cons_of_mem _ hp) ha

def words (parts : α → Bool) (xs : List α) : List (List α) := (split parts xs).filter (!·.isEmpty)

/-- Pieces of `n` elements, of which the last may be shorter. With `n = 0` they hold one element. -/
def chunks (n : Nat) : List α → List (List α)
  | [] => []
  | a :: r => (a :: r.take (n - 1)) :: chunks n (r.drop (n - 1))
termination_by xs => xs.length
decreasing_by simp only [List.length_drop, List.length_cons]; omega

theorem flatten_chunks (n : Nat) (xs : List α) : (chunks n xs).flatten = xs := by
  fun_induction chunks n xs with
  | case1 => rfl
  | case2 a r ih => rw [List.flatten_cons, ih, List.cons_append, List.take_append_drop]

theorem nil_not_mem_chunks (n : Nat) (xs : List α) : [] ∉ chunks n xs := by
  fun_induction chunks n xs with
  | case1 => simp
  | case2 a r ih => simp [ih]

end RespStore.Pieces
