import RespStore.Proofs.Wire.Progress

/-! What a decoder holds back while it waits. It is a line without its end or a bulk that is not all there, so that it
is bounded by the limits and by how long a number may be that is read; and nothing that is complete stands in front. -/

namespace RespStore

namespace Numeral.Spelling

def negated (w : Spelling) : Spelling := { w with negative := true }

theorem isLong_negated (w : Spelling) : w.negated.IsLong ↔ w.IsLong := .rfl

theorem number_negated {w : Spelling} (h : w.negative = false) : w.negated.number = -w.number := by
  rw [number, number, h]
  rfl

theorem length_negated (w : Spelling) : w.negated.toBytes.length = w.digits.length + 1 := by
  show (minus :: w.digits.map digit).length = w.digits.length + 1
  rw [List.length_cons, List.length_map]

end Numeral.Spelling

namespace Wire

open Numeral

variable {limits : Limits} {b rest : Bytes} {n : Nat} {args : List Bytes} {d : Option Draft}

theorem ne_of_line_more (h : line limits b = .more) (l rest : Bytes) : b ≠ l ++ crlf ++ rest := by
  rintro rfl
  exact lineEndFrom_crlf 0 l rest (line_more_iff.mp h).1

theorem Header.length_le {k : Int} {h : Bytes} (hh : Header k h) : h.length ≤ 4303 := by
  obtain ⟨w, hw, -, rfl⟩ := hh
  have hdigits : w.digits.length ≤ 4300 := Nat.le_of_not_lt hw
  have hlength : w.toBytes.length ≤ w.digits.length + 1 := by
    unfold Spelling.toBytes
    split <;> simp
  have hcrlf : crlf.length = 2 := rfl
  rw [List.length_append]
  omega

theorem length_le_of_argument_more (h : argument limits b = .more) :
    b = [] ∨ b.length ≤ limits.line + 1 ∨ b.length ≤ limits.bulk + 4305 := by
  cases b with
  | nil => exact .inl rfl
  | cons t r =>
    right
    rw [argument] at h
    split at h
    · rcases Reader.more_of_andThen h with hnumber | ⟨k, u, hnumber, hbody⟩
      · have hlength : r.length ≤ limits.line := (line_more_iff.mp (line_more_of_number hnumber)).2
        left
        rw [List.length_cons]
        omega
      · obtain ⟨header, hheader, rfl⟩ := (reads_number _).sound hnumber
        have hlength : header.length ≤ 4303 := hheader.length_le
        unfold argumentBody at hbody
        split at hbody
        · cases hbody
        · have hrest : u.length ≤ k.toNat + 1 := length_le_of_body_more hbody
          right
          rw [List.length_cons, List.length_append]
          omega
    · cases h

theorem argument_ne_more {w : Spelling} {data : Bytes} (hdata : (data.length : Int) = w.number) (rest : Bytes) :
    argument limits (bulkMark :: (w.toBytes ++ crlf ++ (data ++ crlf ++ rest))) ≠ .more := by
  by_cases hw : w.IsLong
  · have hlong : OverlongHeader bulkMark w.digits.length (bulkMark :: (w.toBytes ++ crlf ++ (data ++ crlf ++ rest))) :=
      ⟨_, ⟨_, _, ⟨w, hw, rfl, rfl⟩, rfl⟩, rfl⟩
    rw [argument_tooLong_iff.mpr hlong]
    simp
  · have hnumber : number limits .bulkLength (w.toBytes ++ crlf ++ (data ++ crlf ++ rest)) =
        .done (data.length : Int) (data ++ crlf ++ rest) :=
      (reads_number _).complete ⟨w, hw, hdata.symm, rfl⟩ _
    rw [argument, if_pos rfl, Reader.andThen, hnumber]
    dsimp only
    unfold argumentBody
    split
    · simp [Reader.fail]
    · rw [Int.toNat_natCast, body_append]
      simp

theorem ne_header_of_opening_more (h : opening limits b = .more) (l rest : Bytes) :
    b ≠ starMark :: (l ++ crlf ++ rest) := by
  rintro rfl
  rw [opening_cons, if_pos rfl] at h
  rcases Reader.more_of_andThen h with hnumber | ⟨k, u, -, hcount⟩
  · exact ne_of_line_more (line_more_of_number hnumber) l rest rfl
  · exact openingOfCount_ne_more hcount

theorem lf_not_mem_of_opening_more (h : opening limits b = .more) (hplain : b.head? ≠ some starMark) : lf ∉ b := by
  cases b with
  | nil => exact List.not_mem_nil
  | cons t r =>
    rw [opening_of_plain (List.cons_ne_nil t r) hplain] at h
    rcases Reader.more_of_andThen h with hwords | ⟨ws, u, -, hgive⟩
    · unfold inlineWords at hwords
      split at hwords
      · cases hwords
      · rename_i hnone
        intro hmem
        have hlf : decide (lf = lf) = false := List.findIdx?_eq_none_iff.mp hnone lf hmem
        exact absurd hlf (by decide)
    · cases hgive

section Scans

theorem argument_more_of_fill (h : (fill limits n args b).found = .ok none) :
    argument limits (fill limits n args b).rest = .more := by
  induction n generalizing args b with
  | zero => cases h
  | succ n ih =>
    rw [fill] at h ⊢
    cases ha : argument limits b with
    | more => exact ha
    | fault e =>
      rw [ha] at h
      cases h
    | done a rest =>
      rw [ha] at h
      exact ih h

theorem argument_more_of_seek (h : (seek limits b).found = .ok none) (hd : (seek limits b).draft ≠ none) :
    argument limits (seek limits b).rest = .more := by
  fun_induction seek limits b with
  | case1 => exact absurd rfl hd
  | case2 => cases h
  | case3 b rest ho ih => exact ih h hd
  | case4 b n rest ho => exact argument_more_of_fill h
  | case5 => cases h

theorem argument_more_of_scan (h : (scan limits b d).found = .ok none) (hd : (scan limits b d).draft ≠ none) :
    argument limits (scan limits b d).rest = .more := by
  cases d with
  | none => exact argument_more_of_seek h hd
  | some x => exact argument_more_of_fill h

theorem opening_more_of_scan (h : (scan limits b d).found = .ok none) (hd : (scan limits b d).draft = none) :
    opening limits (scan limits b d).rest = .more := by
  cases d with
  | none => exact opening_more_of_seek h hd
  | some x => exact absurd hd (draft_ne_none_of_fill h)

end Scans

namespace Decoder

variable {d e : Decoder}

/-- What is held back. It is no more bytes than the limits allow for, and none at all where they are so far below zero
that they allow for less than none. In front of it there is no bulk that is all there, where one is missing, and else
neither an array's header nor any other line that has its end. -/
structure Backlog (d : Decoder) : Prop where
  length_le : d.buffer.length ≤ (max (d.limits.line + 1) (d.limits.bulk + 4305)).toNat
  bulk : d.draft ≠ none → ∀ (w : Spelling) (data rest : Bytes), (data.length : Int) = w.number →
    d.buffer ≠ bulkMark :: (w.toBytes ++ crlf ++ (data ++ crlf ++ rest))
  header : d.draft = none → ∀ l rest, d.buffer ≠ starMark :: (l ++ crlf ++ rest)
  line : d.draft = none → d.buffer.head? ≠ some starMark → lf ∉ d.buffer

theorem backlog_of_none (h : d.next = (.ok none, e)) : e.Backlog := by
  obtain ⟨hfound, hlimits, hbuffer, hdraft⟩ := scan_of_next h
  have hargument : e.draft ≠ none → argument e.limits e.buffer = .more := by
    intro hd
    rw [hdraft] at hd
    rw [hlimits, hbuffer]
    exact argument_more_of_scan hfound hd
  have hopening : e.draft = none → opening e.limits e.buffer = .more := by
    intro hd
    rw [hdraft] at hd
    rw [hlimits, hbuffer]
    exact opening_more_of_scan hfound hd
  refine ⟨?_, ?_, ?_, ?_⟩
  · have hlength : e.buffer = [] ∨ e.buffer.length ≤ e.limits.line + 1 ∨ e.buffer.length ≤ e.limits.bulk + 4305 := by
      by_cases hd : e.draft = none
      · rcases length_le_of_opening_more (hopening hd) with hempty | hline
        · exact .inl hempty
        · exact .inr (.inl hline)
      · exact length_le_of_argument_more (hargument hd)
    rcases hlength with hempty | hline | hbulk
    · rw [hempty]
      exact Nat.zero_le _
    · omega
    · omega
  · intro hd w data rest hdata heq
    have hmore := hargument hd
    rw [heq] at hmore
    exact argument_ne_more hdata rest hmore
  · intro hd
    exact ne_header_of_opening_more (hopening hd)
  · intro hd
    exact lf_not_mem_of_opening_more (hopening hd)

/-- After any calls, a decoder that gives no request holds back no more than this. -/
theorem backlog_after (limits : Limits) (calls : List Call) {e : Decoder}
    (h : (({ limits } : Decoder).after calls).next = (.ok none, e)) : e.limits = limits ∧ e.Backlog := by
  obtain ⟨-, hlimits, -, -⟩ := scan_of_next h
  exact ⟨hlimits.trans (limits_after _ calls), backlog_of_none h⟩

theorem next_unended {w : Spelling} (hw : ¬w.IsLong) (hnumber : w.number = 0) (hbulk : 0 ≤ limits.bulk)
    (harray : 1 ≤ limits.array) :
    (({ limits } : Decoder).after [.feed (arrayHeader 1 ++ bulkMark :: (w.toBytes ++ crlf ++ [cr]))]).next =
      (.ok none, ⟨limits, bulkMark :: (w.toBytes ++ crlf ++ [cr]), some ⟨1, []⟩⟩) := by
  have hread : number limits .bulkLength (w.toBytes ++ crlf ++ [cr]) = .done 0 [cr] :=
    (reads_number _).complete ⟨w, hw, hnumber, rfl⟩ [cr]
  have hargument : argument limits (bulkMark :: (w.toBytes ++ crlf ++ [cr])) = .more := by
    rw [argument, if_pos rfl, Reader.andThen, hread]
    dsimp only
    rw [argumentBody, if_neg (by omega)]
    rfl
  have hopening : opening limits (arrayHeader 1 ++ bulkMark :: (w.toBytes ++ crlf ++ [cr])) =
      .done (.arguments 1) (bulkMark :: (w.toBytes ++ crlf ++ [cr])) :=
    opening_arrayHeader Nat.one_pos harray (readable_iff.mp (by decide +kernel)) _
  show (({ limits } : Decoder).feed _).next = _
  rw [next_feed, seek_eq, hopening]
  dsimp only
  rw [fill, hargument]

def minusNothing : Spelling := (Spelling.run ⟨0, by decide⟩ 4299).negated

theorem backlog_after_minusNothing :
    let limits : Limits := { bulk := 0, line := 0, array := 1 }
    let d : Decoder := ⟨limits, bulkMark :: (minusNothing.toBytes ++ crlf ++ [cr]), some ⟨1, []⟩⟩
    (({ limits } : Decoder).after [.feed (arrayHeader 1 ++ d.buffer)]).next = (.ok none, d) ∧
      (d.limits = limits ∧ d.Backlog) ∧ d.buffer.length = limits.bulk + 4305 := by
  intro limits d
  have hlong : ¬minusNothing.IsLong := by
    rw [minusNothing, Spelling.isLong_negated, Spelling.IsLong, Spelling.length_run]
    decide
  have hnumber : minusNothing.number = 0 := by
    have hzero : (Spelling.run ⟨0, by decide⟩ 4299).number = 0 := Spelling.number_run_zero 4299
    rw [minusNothing, Spelling.number_negated rfl, hzero, Int.neg_zero]
  have hnext : (({ limits } : Decoder).after [.feed (arrayHeader 1 ++ d.buffer)]).next = (.ok none, d) :=
    next_unended hlong hnumber (Int.le_refl 0) (Int.le_refl 1)
  have hlength : d.buffer.length = 4305 := by
    have hbytes : minusNothing.toBytes.length = 4301 := by
      rw [minusNothing, Spelling.length_negated, Spelling.length_run]
    show (bulkMark :: (minusNothing.toBytes ++ crlf ++ [cr])).length = 4305
    rw [List.length_cons, List.length_append, List.length_append, hbytes]
    rfl
  refine ⟨hnext, backlog_after limits _ hnext, ?_⟩
  rw [hlength]
  rfl

end Decoder

end Wire

end RespStore
