import RespStore.Console.Render

/-! Blocks of lines. A block hangs from a margin: its first line stands right after the margin and the others after
spaces. What hangs from one margin and then from another hangs from both, so that a place inside a place inside a page
is a place on the page. -/

namespace RespStore.Render

def rows (t : Text) : List Text := t.splitOn newline

theorem rows_ne_nil (t : Text) : rows t ≠ [] := List.splitOn_ne_nil newline t

theorem rows_of_not_mem {t : Text} (h : newline ∉ t) : rows t = [t] := List.splitOn_eq_singleton h

theorem rows_append_newline (t u : Text) : rows (t ++ newline :: u) = rows t ++ rows u :=
  List.splitOn_append_cons_self t u

theorem length_spaces (n : Nat) : (spaces n).length = n := List.length_replicate

theorem spaces_append (m n : Nat) : spaces m ++ spaces n = spaces (m + n) := List.replicate_append_replicate

theorem newline_not_mem_spaces (n : Nat) : newline ∉ spaces n := by
  intro h
  exact absurd (List.eq_of_mem_replicate h) (by decide)

def hang (margin : Text) (depth : Nat) : List Text → List Text
  | [] => []
  | l :: ls => (margin ++ l) :: ls.map (spaces depth ++ ·)

variable {m n : Text} {d : Nat} {b c : List Text}

theorem hang_ne_nil (h : b ≠ []) : hang m d b ≠ [] := by
  cases b with
  | nil => exact absurd rfl h
  | cons l ls => exact List.cons_ne_nil _ _

theorem length_hang (m : Text) (d : Nat) (b : List Text) : (hang m d b).length = b.length := by
  cases b with
  | nil => rfl
  | cons l ls => rw [hang, List.length_cons, List.length_map, List.length_cons]

theorem map_spaces_eq_hang (d : Nat) (b : List Text) : b.map (spaces d ++ ·) = hang (spaces d) d b := by
  cases b <;> rfl

theorem hang_zero (m l : Text) (ls : List Text) : hang m 0 (l :: ls) = (m ++ l) :: ls :=
  congrArg ((m ++ l) :: ·) (List.map_id ls)

theorem hang_nil_zero (b : List Text) : hang [] 0 b = b := by
  cases b with
  | nil => rfl
  | cons l ls => exact hang_zero [] l ls

theorem hang_hang (m n : Text) (d e : Nat) (b : List Text) : hang m d (hang n e b) = hang (m ++ n) (d + e) b := by
  cases b with
  | nil => rfl
  | cons l ls =>
    have hspaces : (fun t => spaces d ++ t) ∘ (fun t => spaces e ++ t) = fun t => spaces (d + e) ++ t := by
      funext t
      rw [Function.comp_apply, ← List.append_assoc, spaces_append]
    rw [hang, hang, hang, List.map_map, hspaces, List.append_assoc]

theorem hang_append (h : b ≠ []) (m : Text) (d : Nat) (c : List Text) :
    hang m d (b ++ c) = hang m d b ++ hang (spaces d) d c := by
  cases b with
  | nil => exact absurd rfl h
  | cons l ls => rw [List.cons_append, hang, hang, List.map_append, List.cons_append, map_spaces_eq_hang d c]

theorem rows_append {p : Text} (h : newline ∉ p) (t : Text) : rows (p ++ t) = hang p 0 (rows t) := by
  obtain ⟨l, ls, ht⟩ := List.exists_cons_of_ne_nil (rows_ne_nil t)
  rw [ht, hang_zero]
  induction p with
  | nil => exact ht
  | cons g p ih =>
    rw [List.mem_cons, not_or] at h
    have hg : ¬ (g == newline) = true := fun hg => h.1 (eq_of_beq hg).symm
    have hrest : (p ++ t).splitOn newline = (p ++ l) :: ls := ih h.2
    rw [List.cons_append, rows, List.splitOn_cons_eq_if_modifyHead, if_neg hg, hrest]
    rfl

/-- A block that is drawn on a page: from one of its lines on the page shows the block, hanging from a margin. -/
def Drawn (page : List Text) (row : Nat) (margin : Text) (block : List Text) : Prop :=
  ∃ above below, above.length = row ∧ page = above ++ hang margin margin.length block ++ below

theorem drawn_hang (m : Text) (b : List Text) : Drawn (hang m m.length b) 0 m b :=
  ⟨[], [], rfl, (List.append_nil _).symm⟩

def marginAt (m : Text) (row : Nat) : Text := if row = 0 then m else spaces m.length

theorem marginAt_of_ne {row : Nat} (h : row ≠ 0) (m : Text) : marginAt m row = spaces m.length := if_neg h

theorem length_marginAt (m : Text) (row : Nat) : (marginAt m row).length = m.length := by
  unfold marginAt
  split
  · rfl
  · exact length_spaces m.length

theorem Drawn.trans {page : List Text} {i j : Nat} (h : Drawn page i m b) (hb : Drawn b j n c) (hc : c ≠ []) :
    Drawn page (i + j) (marginAt m j ++ n) c := by
  obtain ⟨above, below, rfl, rfl⟩ := h
  obtain ⟨before, after, rfl, rfl⟩ := hb
  have hne : hang n n.length c ≠ [] := hang_ne_nil hc
  rw [Drawn, List.length_append, length_marginAt, ← hang_hang]
  cases before with
  | nil =>
    refine ⟨above, hang (spaces m.length) m.length after ++ below, rfl, ?_⟩
    rw [List.nil_append, hang_append hne]
    simp only [List.append_assoc]
    rfl
  | cons l ls =>
    have hcons : l :: ls ≠ [] := List.cons_ne_nil l ls
    refine ⟨above ++ hang m m.length (l :: ls), hang (spaces m.length) m.length after ++ below, ?_, ?_⟩
    · rw [List.length_append, length_hang]
    · rw [List.append_assoc (l :: ls), hang_append hcons, hang_append hne, marginAt_of_ne (by simp)]
      simp only [List.append_assoc]

end RespStore.Render
