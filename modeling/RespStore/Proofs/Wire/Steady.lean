import RespStore.Wire.Request

/-! Steady readers. What a steady reader finds stands when more bytes follow, and so does a fault, except
one that speaks of a line that has not ended. All readers of requests are steady. -/

namespace RespStore.Wire

namespace Reader

structure Steady {α : Type} (r : Reader α) : Prop where
  done : ∀ {b rest : Bytes} {a : α}, r b = .done a rest → ∀ x, r (b ++ x) = .done a (rest ++ x)
  fault : ∀ {b : Bytes} {e : DecodeError}, r b = .fault e → e.isTooBig = false →
    ∀ x, r (b ++ x) = .fault e

variable {α β : Type} {r : Reader α}

theorem steady_give (a : α) : (give a).Steady where
  done h x := by
    obtain ⟨rfl, rfl⟩ := Progress.done.inj h
    rfl
  fault h := by simp [give] at h

theorem steady_fail (f : ProtocolFault) : (fail f : Reader α).Steady where
  done h := by simp [fail] at h
  fault h _ _ := by
    obtain rfl := Progress.fault.inj h
    rfl

theorem Steady.andThen {f : α → Reader β} (hr : r.Steady) (hf : ∀ a, (f a).Steady) :
    (r.andThen f).Steady := by
  constructor
  · intro b rest c h x
    unfold Reader.andThen at h ⊢
    cases hb : r b with
    | more => simp [hb] at h
    | fault e => simp [hb] at h
    | done a b' =>
      rw [hb] at h
      rw [hr.done hb x]
      exact (hf a).done h x
  · intro b e h he x
    unfold Reader.andThen at h ⊢
    cases hb : r b with
    | more => simp [hb] at h
    | fault e' =>
      rw [hb] at h
      obtain rfl := Progress.fault.inj h
      rw [hr.fault hb he x]
    | done a b' =>
      rw [hb] at h
      rw [hr.done hb x]
      exact (hf a).fault h he x

end Reader

open Reader

theorem lineEndFrom_append {i n : Nat} {b : Bytes} (h : lineEndFrom i b = some n) (x : Bytes) :
    lineEndFrom i (b ++ x) = some n := by
  induction b generalizing i with
  | nil => simp [lineEndFrom] at h
  | cons a r ih =>
    -- A carriage return at the very end is no line end yet, so the byte after it is there already.
    cases r with
    | nil => simp [lineEndFrom] at h
    | cons c r =>
      rw [lineEndFrom] at h
      rw [List.cons_append, lineEndFrom, List.cons_append, List.head?_cons]
      rw [List.head?_cons] at h
      by_cases hc : a = cr ∧ some c = some lf
      · rwa [if_pos hc] at h ⊢
      · rw [if_neg hc] at h ⊢
        exact ih h

theorem line_steady (limits : Limits) : (line limits).Steady := by
  constructor
  · intro b rest l h x
    unfold line at h ⊢
    cases hi : lineEndFrom 0 b with
    | none =>
      rw [hi] at h
      dsimp only at h
      split at h <;> simp at h
    | some i =>
      have hlt : i + 2 ≤ 0 + b.length := lineEndFrom_lt hi
      rw [hi] at h
      rw [lineEndFrom_append hi x]
      obtain ⟨rfl, rfl⟩ := Progress.done.inj h
      dsimp only
      rw [List.take_append_of_le_length (by omega), List.drop_append_of_le_length (by omega)]
  · intro b e h he x
    unfold line at h
    cases hi : lineEndFrom 0 b with
    | none =>
      rw [hi] at h
      dsimp only at h
      split at h
      · obtain rfl := Progress.fault.inj h
        simp [DecodeError.isTooBig] at he
      · simp at h
    | some i => simp [hi] at h

theorem numeral_steady (bad : ProtocolFault) (ds : Bytes) : (numeral bad ds).Steady := by
  constructor
  · intro b rest n h x
    unfold numeral at h ⊢
    cases hn : Numeral.read ds with
    | ok m =>
      rw [hn] at h
      obtain ⟨rfl, rfl⟩ := Progress.done.inj h
      rfl
    | error f => cases f <;> simp [hn] at h
  · intro b e h _ x
    unfold numeral at h ⊢
    cases hn : Numeral.read ds with
    | ok m => simp [hn] at h
    | error f =>
      rw [hn] at h
      cases f <;> exact h

theorem number_steady (limits : Limits) (bad : ProtocolFault) : (number limits bad).Steady :=
  (line_steady limits).andThen (numeral_steady bad)

theorem drop_take_append {n : Nat} {b r : Bytes} {y : UInt8} (h : b.drop n = y :: r) (x : Bytes) :
    (b ++ x).drop n = y :: (r ++ x) ∧ (b ++ x).take n = b.take n := by
  have hlength : b.length - n = r.length + 1 := by rw [← List.length_drop, h, List.length_cons]
  have hn : n ≤ b.length := by omega
  rw [List.drop_append_of_le_length hn, h, List.take_append_of_le_length hn]
  exact ⟨rfl, rfl⟩

theorem body_steady (n : Nat) : (body n).Steady := by
  constructor
  · intro b rest data h x
    unfold body at h ⊢
    split at h
    · rename_i y z r hr
      obtain ⟨hdrop, htake⟩ := drop_take_append hr x
      rw [hdrop, htake, List.cons_append]
      dsimp only
      split at h
      · rename_i hyz
        obtain ⟨rfl, rfl⟩ := Progress.done.inj h
        rw [if_pos hyz]
      · simp at h
    · simp at h
  · intro b e h _ x
    unfold body at h ⊢
    split at h
    · rename_i y z r hr
      rw [(drop_take_append hr x).1, List.cons_append]
      dsimp only
      split at h
      · simp at h
      · rename_i hyz
        rw [if_neg hyz, h]
    · simp at h

theorem argumentBody_steady (limits : Limits) (n : Int) : (argumentBody limits n).Steady := by
  unfold argumentBody
  split
  · exact steady_fail _
  · exact body_steady _

theorem steady_cons {α : Type} {f : UInt8 → Reader α} (hf : ∀ t, (f t).Steady) :
    Reader.Steady fun b => match b with
      | [] => .more
      | t :: r => f t r := by
  constructor
  · intro b rest a h x
    cases b with
    | nil => simp at h
    | cons t r => exact (hf t).done h x
  · intro b e h he x
    cases b with
    | nil => simp at h
    | cons t r => exact (hf t).fault h he x

theorem argument_steady (limits : Limits) : (argument limits).Steady := by
  refine steady_cons fun t => ?_
  by_cases ht : t = bulkMark
  · simp only [if_pos ht]
    exact (number_steady limits _).andThen (argumentBody_steady limits)
  · simp only [if_neg ht]
    exact steady_fail _

theorem inlineWords_steady (limits : Limits) : (inlineWords limits).Steady := by
  constructor
  · intro b rest ws h x
    unfold inlineWords at h ⊢
    cases hi : b.findIdx? (· = lf) with
    | none =>
      rw [hi] at h
      dsimp only at h
      split at h <;> simp at h
    | some i =>
      obtain ⟨hlt, -⟩ := List.findIdx?_eq_some_iff_getElem.mp hi
      rw [hi] at h
      obtain ⟨rfl, rfl⟩ := Progress.done.inj h
      rw [List.findIdx?_append, hi, Option.some_or]
      dsimp only
      rw [List.take_append_of_le_length (by omega), List.drop_append_of_le_length (by omega)]
  · intro b e h he x
    unfold inlineWords at h
    cases hi : b.findIdx? (· = lf) with
    | none =>
      rw [hi] at h
      dsimp only at h
      split at h
      · obtain rfl := Progress.fault.inj h
        simp [DecodeError.isTooBig] at he
      · simp at h
    | some i => simp [hi] at h

theorem openingOfCount_steady (limits : Limits) (n : Int) : (openingOfCount limits n).Steady := by
  unfold openingOfCount
  split
  · exact steady_fail _
  · split
    · exact steady_give _
    · exact steady_give _

theorem opening_cons (limits : Limits) (t : UInt8) (r : Bytes) :
    opening limits (t :: r) =
      if t = starMark then (number limits .multibulkLength).andThen (openingOfCount limits) r
      else (inlineWords limits).andThen (fun ws => give (.ofWords ws)) (t :: r) := rfl

theorem opening_steady (limits : Limits) : (opening limits).Steady := by
  have hc : ((number limits .multibulkLength).andThen (openingOfCount limits)).Steady :=
    (number_steady limits _).andThen (openingOfCount_steady limits)
  have hw : ((inlineWords limits).andThen fun ws => give (Opening.ofWords ws)).Steady :=
    (inlineWords_steady limits).andThen fun ws => steady_give _
  constructor
  · intro b rest o h x
    cases b with
    | nil => simp [opening] at h
    | cons t r =>
      rw [List.cons_append, opening_cons]
      rw [opening_cons] at h
      by_cases ht : t = starMark
      · rw [if_pos ht] at h ⊢
        exact hc.done h x
      · rw [if_neg ht] at h ⊢
        exact hw.done h x
  · intro b e h he x
    cases b with
    | nil => simp [opening] at h
    | cons t r =>
      rw [List.cons_append, opening_cons]
      rw [opening_cons] at h
      by_cases ht : t = starMark
      · rw [if_pos ht] at h ⊢
        exact hc.fault h he x
      · rw [if_neg ht] at h ⊢
        exact hw.fault h he x

end RespStore.Wire
