import RespStore.Proofs.Number.Spelling
import RespStore.Proofs.Wire.RoundTrip

/-! Where decoding fails without a fault of the protocol. It does so at a header whose number is spelled with
more digits than are ever read, and nowhere else. -/

namespace RespStore.Wire

open Numeral

def OverlongLine (n : Nat) (b : Bytes) : Prop := ∃ l rest, Overlong n l ∧ b = l ++ crlf ++ rest

def OverlongHeader (mark : UInt8) (n : Nat) (b : Bytes) : Prop := ∃ r, OverlongLine n r ∧ b = mark :: r

namespace Reader

structure Plain {α : Type} (r : Reader α) : Prop where
  suffix : ∀ {b : Bytes} {a : α} {rest : Bytes}, r b = .done a rest → rest <:+ b
  unstuck : ∀ (b : Bytes) (n : Nat), r b ≠ .fault (.numeralTooLong n)

variable {α β : Type} {r : Reader α} {f : α → Reader β} {b rest : Bytes} {n : Nat}

theorem plain_give (a : α) : (give a).Plain where
  suffix h := by
    obtain ⟨-, rfl⟩ := Progress.done.inj h
    exact List.suffix_rfl
  unstuck b n h := by cases h

theorem plain_fail (g : ProtocolFault) : (fail g : Reader α).Plain where
  suffix h := by cases h
  unstuck b n h := by cases h

theorem exists_of_andThen_done {c : β} (h : r.andThen f b = .done c rest) :
    ∃ a t, r b = .done a t ∧ f a t = .done c rest := by
  unfold andThen at h
  cases hb : r b with
  | more => rw [hb] at h; cases h
  | fault e => rw [hb] at h; cases h
  | done a t =>
    rw [hb] at h
    exact ⟨a, t, rfl, h⟩

theorem more_of_andThen (h : r.andThen f b = .more) :
    r b = .more ∨ ∃ a t, r b = .done a t ∧ f a t = .more := by
  unfold andThen at h
  cases hb : r b with
  | more => exact .inl rfl
  | fault e =>
    rw [hb] at h
    cases h
  | done a t =>
    rw [hb] at h
    exact .inr ⟨a, t, rfl, h⟩

theorem Plain.exists_of_andThen_tooLong (hr : r.Plain) (h : r.andThen f b = .fault (.numeralTooLong n)) :
    ∃ a t, r b = .done a t ∧ f a t = .fault (.numeralTooLong n) := by
  unfold Reader.andThen at h
  cases hb : r b with
  | more => rw [hb] at h; cases h
  | fault e =>
    rw [hb] at h
    obtain rfl := Progress.fault.inj h
    exact absurd hb (hr.unstuck b n)
  | done a t =>
    rw [hb] at h
    exact ⟨a, t, rfl, h⟩

theorem andThen_tooLong_iff (hf : ∀ a, (f a).Plain) :
    r.andThen f b = .fault (.numeralTooLong n) ↔ r b = .fault (.numeralTooLong n) := by
  unfold andThen
  cases r b with
  | more => simp
  | fault e => simp
  | done a t => simpa using (hf a).unstuck t n

theorem Plain.andThen (hr : r.Plain) (hf : ∀ a, (f a).Plain) : (r.andThen f).Plain where
  suffix h := by
    obtain ⟨a, t, ha, hc⟩ := exists_of_andThen_done h
    exact ((hf a).suffix hc).trans (hr.suffix ha)
  unstuck b n h := hr.unstuck b n ((andThen_tooLong_iff hf).mp h)

end Reader

open Reader

variable {limits : Limits} {b rest : Bytes} {n : Nat}

theorem exists_of_lineEndFrom {i k : Nat} (h : lineEndFrom i b = some k) :
    ∃ l rest, b = l ++ crlf ++ rest ∧ k = i + l.length := by
  induction b generalizing i with
  | nil => cases h
  | cons a r ih =>
    rw [lineEndFrom] at h
    by_cases hr : a = cr ∧ r.head? = some lf
    · rw [if_pos hr] at h
      obtain ⟨rfl, hhead⟩ := hr
      obtain ⟨rest, rfl⟩ := List.head?_eq_some_iff.mp hhead
      exact ⟨[], rest, rfl, (Option.some.inj h).symm⟩
    · rw [if_neg hr] at h
      obtain ⟨l, rest, rfl, rfl⟩ := ih h
      exact ⟨a :: l, rest, rfl, by rw [List.length_cons]; omega⟩

theorem eq_of_line {l : Bytes} (h : line limits b = .done l rest) : b = l ++ crlf ++ rest := by
  unfold line at h
  cases hi : lineEndFrom 0 b with
  | none =>
    rw [hi] at h
    dsimp only at h
    split at h <;> cases h
  | some k =>
    obtain ⟨l', rest', rfl, rfl⟩ := exists_of_lineEndFrom hi
    rw [hi] at h
    obtain ⟨rfl, rfl⟩ := Progress.done.inj h
    rw [Nat.zero_add, ← List.drop_drop, List.append_assoc, List.take_left, List.drop_left]
    exact (List.append_assoc l' crlf rest').symm

theorem line_plain : (line limits).Plain where
  suffix h := ⟨_, (eq_of_line h).symm⟩
  unstuck b n h := by
    unfold line at h
    split at h
    · cases h
    · split at h <;> cases h

theorem numeral_tooLong_iff {bad : ProtocolFault} {l : Bytes} :
    numeral bad l b = .fault (.numeralTooLong n) ↔ Overlong n l := by
  rw [← read_eq_tooLong_iff, numeral]
  cases read l with
  | ok m => simp
  | error f => cases f <;> simp

theorem cr_not_mem_spelling (w : Spelling) : cr ∉ w.toBytes := by
  intro hcr
  rcases Spelling.mem_toBytes hcr with hcr | hcr
  · exact absurd hcr (by decide)
  · exact absurd hcr (by decide)

theorem cr_not_mem_of_overlong {l : Bytes} (h : Overlong n l) : cr ∉ l := by
  obtain ⟨w, -, -, rfl⟩ := h
  exact cr_not_mem_spelling w

theorem line_andThen_tooLong_iff {α : Type} {f : Bytes → Reader α} {p : Prop}
    (hf : ∀ l rest, f l rest = .fault (.numeralTooLong n) ↔ p ∧ Overlong n l) :
    (line limits).andThen f b = .fault (.numeralTooLong n) ↔ p ∧ OverlongLine n b := by
  constructor
  · intro h
    obtain ⟨l, rest, hl, hfl⟩ := line_plain.exists_of_andThen_tooLong h
    obtain ⟨hp, hlong⟩ := (hf l rest).mp hfl
    exact ⟨hp, l, rest, hlong, eq_of_line hl⟩
  · rintro ⟨hp, l, rest, hlong, rfl⟩
    rw [andThen, line_of_not_mem limits (cr_not_mem_of_overlong hlong)]
    exact (hf l rest).mpr ⟨hp, hlong⟩

theorem number_tooLong_iff {bad : ProtocolFault} :
    number limits bad b = .fault (.numeralTooLong n) ↔ OverlongLine n b := by
  have hnumeral (l rest : Bytes) : numeral bad l rest = .fault (.numeralTooLong n) ↔ True ∧ Overlong n l := by
    rw [numeral_tooLong_iff, true_and]
  rw [number, line_andThen_tooLong_iff hnumeral, true_and]

theorem body_plain (k : Nat) : (body k).Plain where
  suffix {b data rest} h := by
    unfold body at h
    split at h
    · rename_i x y r hr
      split at h
      · obtain ⟨-, rfl⟩ := Progress.done.inj h
        have hdrop : r <:+ b.drop k := hr ▸ List.suffix_append [x, y] r
        exact hdrop.trans (List.drop_suffix k b)
      · cases h
    · cases h
  unstuck b n h := by
    unfold body at h
    split at h
    · split at h <;> cases h
    · cases h

theorem argumentBody_plain (i : Int) : (argumentBody limits i).Plain := by
  unfold argumentBody
  split
  · exact plain_fail _
  · exact body_plain _

theorem argument_tooLong_iff :
    argument limits b = .fault (.numeralTooLong n) ↔ OverlongHeader bulkMark n b := by
  cases b with
  | nil => simp [argument, OverlongHeader]
  | cons t r =>
    rw [argument]
    by_cases ht : t = bulkMark
    · rw [if_pos ht, andThen_tooLong_iff argumentBody_plain, number_tooLong_iff]
      simp [OverlongHeader, ht]
    · rw [if_neg ht]
      simp [OverlongHeader, ht]

theorem openingOfCount_plain (i : Int) : (openingOfCount limits i).Plain := by
  unfold openingOfCount
  split
  · exact plain_fail _
  · split
    · exact plain_give _
    · exact plain_give _

theorem inlineWords_plain : (inlineWords limits).Plain where
  suffix {b ws rest} h := by
    unfold inlineWords at h
    split at h
    · obtain ⟨-, rfl⟩ := Progress.done.inj h
      exact List.drop_suffix _ b
    · split at h <;> cases h
  unstuck b n h := by
    unfold inlineWords at h
    split at h
    · cases h
    · split at h <;> cases h

theorem opening_tooLong_iff :
    opening limits b = .fault (.numeralTooLong n) ↔ OverlongHeader starMark n b := by
  cases b with
  | nil => simp [opening, OverlongHeader]
  | cons t r =>
    rw [opening_cons]
    by_cases ht : t = starMark
    · rw [if_pos ht, andThen_tooLong_iff openingOfCount_plain, number_tooLong_iff]
      simp [OverlongHeader, ht]
    · have hwords : ((inlineWords limits).andThen fun ws => give (Opening.ofWords ws)).Plain :=
        inlineWords_plain.andThen fun ws => plain_give _
      rw [if_neg ht]
      constructor
      · intro h
        exact absurd h (hwords.unstuck _ n)
      · rintro ⟨r', -, hr⟩
        exact absurd (List.cons.inj hr).1 ht

structure Decoder.Stuck (n : Nat) (d : Decoder) : Prop where
  missing : ∀ r ∈ d.draft, 0 < r.missing
  header : OverlongHeader (if d.draft.isSome then bulkMark else starMark) n d.buffer

theorem fill_stuck {k : Nat} {args : List Bytes}
    (h : (fill limits k args b).found = .error (.numeralTooLong n)) :
    Decoder.Stuck n ⟨limits, (fill limits k args b).rest, (fill limits k args b).draft⟩ := by
  induction k generalizing args b with
  | zero => cases h
  | succ k ih =>
    rw [fill] at h ⊢
    cases ha : argument limits b with
    | more => rw [ha] at h; cases h
    | fault e =>
      rw [ha] at h
      obtain rfl := Except.error.inj h
      refine ⟨?_, argument_tooLong_iff.mp ha⟩
      intro r hr
      obtain rfl := Option.some.inj hr
      exact Nat.succ_pos k
    | done a rest =>
      rw [ha] at h
      exact ih h

theorem seek_stuck (h : (seek limits b).found = .error (.numeralTooLong n)) :
    Decoder.Stuck n ⟨limits, (seek limits b).rest, (seek limits b).draft⟩ := by
  fun_induction seek limits b with
  | case1 => cases h
  | case2 b e ho =>
    obtain rfl := Except.error.inj h
    refine ⟨?_, opening_tooLong_iff.mp ho⟩
    intro r hr
    cases hr
  | case3 b rest ho ih => exact ih h
  | case4 b k rest ho => exact fill_stuck h
  | case5 => cases h

namespace Decoder

variable {d e : Decoder}

theorem stuck_of_next (h : d.next = (.error (.numeralTooLong n), e)) : e.Stuck n := by
  obtain ⟨limits, buffer, draft⟩ := d
  obtain ⟨hfound, rfl⟩ := Prod.mk.inj h
  cases draft with
  | none => exact seek_stuck hfound
  | some r => exact fill_stuck hfound

theorem Stuck.next_eq (h : d.Stuck n) : d.next = (.error (.numeralTooLong n), d) := by
  obtain ⟨limits, buffer, draft⟩ := d
  obtain ⟨hmissing, hheader⟩ := h
  rw [next]
  cases draft with
  | none =>
    have ho : opening limits buffer = .fault (.numeralTooLong n) := opening_tooLong_iff.mpr hheader
    dsimp only
    rw [scan, seek_eq, ho]
  | some r =>
    have ha : argument limits buffer = .fault (.numeralTooLong n) := argument_tooLong_iff.mpr hheader
    obtain ⟨missing, args⟩ := r
    cases missing with
    | zero => exact absurd (hmissing _ rfl) (Nat.lt_irrefl 0)
    | succ k =>
      dsimp only
      rw [scan, fill, ha]

end Decoder

def takesNumber (mark : UInt8) : Bool := mark = integerMark || mark = bulkMark || mark = starMark

theorem bulkHead_plain (i : Int) : (bulkHead limits i).Plain := by
  unfold bulkHead
  split
  · exact plain_give _
  split
  · exact plain_fail _
  · exact (body_plain _).andThen fun data => plain_give _

theorem arrayHead_plain (i : Int) : (arrayHead limits i).Plain := by
  unfold arrayHead
  split
  · exact plain_give _
  split
  · exact plain_fail _
  split
  · exact plain_give _
  · exact plain_give _

theorem suffix_of_numeral {α : Type} {bad : ProtocolFault} {l : Bytes} {f : Int → Reader α} {a : α}
    (hf : ∀ i, (f i).Plain) (h : (numeral bad l).andThen f b = .done a rest) : rest <:+ b := by
  obtain ⟨i, t, hi, ha⟩ := exists_of_andThen_done h
  unfold numeral at hi
  split at hi
  · obtain ⟨rfl, rfl⟩ := Progress.done.inj hi
    exact (hf _).suffix ha
  · cases hi
  · cases hi

theorem headOfLine_suffix {mark : UInt8} {l : Bytes} {a : Head}
    (h : headOfLine limits mark l b = .done a rest) : rest <:+ b := by
  unfold headOfLine at h
  split at h
  · exact (plain_give _).suffix h
  split at h
  · exact (plain_give _).suffix h
  split at h
  · exact suffix_of_numeral (fun i => plain_give _) h
  split at h
  · exact suffix_of_numeral bulkHead_plain h
  split at h
  · exact suffix_of_numeral arrayHead_plain h
  · exact (plain_fail _).suffix h

theorem head_suffix {a : Head} (h : head limits b = .done a rest) : rest <:+ b := by
  cases b with
  | nil => cases h
  | cons mark r =>
    obtain ⟨l, t, hl, ha⟩ := exists_of_andThen_done h
    have hr : rest <:+ r := (headOfLine_suffix ha).trans (line_plain.suffix hl)
    exact hr.trans (List.suffix_cons mark r)

theorem headOfLine_tooLong_iff (mark : UInt8) (l rest : Bytes) :
    headOfLine limits mark l rest = .fault (.numeralTooLong n) ↔ takesNumber mark = true ∧ Overlong n l := by
  have hplain {r : Reader Head} (hr : r.Plain) (hm : takesNumber mark = false) :
      r rest = .fault (.numeralTooLong n) ↔ takesNumber mark = true ∧ Overlong n l := by
    simp [hr.unstuck rest n, hm]
  have hnumeral {bad : ProtocolFault} {f : Int → Reader Head} (hf : ∀ i, (f i).Plain)
      (hm : takesNumber mark = true) :
      (numeral bad l).andThen f rest = .fault (.numeralTooLong n) ↔
        takesNumber mark = true ∧ Overlong n l := by
    rw [andThen_tooLong_iff hf, numeral_tooLong_iff, and_iff_right hm]
  -- The marks in the order in which they are tried.
  unfold headOfLine
  split
  · exact hplain (plain_give _) (by subst mark; decide)
  split
  · exact hplain (plain_give _) (by subst mark; decide)
  split
  · exact hnumeral (fun i => plain_give _) (by subst mark; decide)
  split
  · exact hnumeral bulkHead_plain (by subst mark; decide)
  split
  · exact hnumeral arrayHead_plain (by subst mark; decide)
  · exact hplain (plain_fail _) (by simp_all [takesNumber])

theorem head_tooLong_iff :
    head limits b = .fault (.numeralTooLong n) ↔
      ∃ mark, takesNumber mark = true ∧ OverlongHeader mark n b := by
  cases b with
  | nil => simp [head, OverlongHeader]
  | cons mark r =>
    have hline (l rest : Bytes) : headOfLine limits mark l rest = .fault (.numeralTooLong n) ↔
        takesNumber mark = true ∧ Overlong n l := headOfLine_tooLong_iff mark l rest
    show (line limits).andThen (headOfLine limits mark) r = _ ↔ _
    rw [line_andThen_tooLong_iff hline]
    simp [OverlongHeader]

theorem replyWithin_tooLong {frames : List Frame}
    (h : replyWithin limits frames b = .fault (.numeralTooLong n)) :
    ∃ mark t, takesNumber mark = true ∧ OverlongHeader mark n t ∧ t <:+ b := by
  fun_induction replyWithin limits frames b with
  | case1 => cases h
  | case2 frames b e hh =>
    obtain rfl := Progress.fault.inj h
    obtain ⟨mark, hmark, hlong⟩ := head_tooLong_iff.mp hh
    exact ⟨mark, b, hmark, hlong, List.suffix_rfl⟩
  | case3 frames b k rest hh ih =>
    obtain ⟨mark, t, hmark, hlong, ht⟩ := ih h
    exact ⟨mark, t, hmark, hlong, ht.trans (head_suffix hh)⟩
  | case4 => cases h
  | case5 frames b r rest hh fs hs ih =>
    obtain ⟨mark, t, hmark, hlong, ht⟩ := ih h
    exact ⟨mark, t, hmark, hlong, ht.trans (head_suffix hh)⟩

theorem Decoder.reply_of_nextReply {d d' : Decoder} {e : DecodeError}
    (h : d.nextReply = (.error e, d')) : d' = d ∧ reply d.limits d.buffer = .fault e := by
  unfold nextReply at h
  cases hr : reply d.limits d.buffer with
  | more => rw [hr] at h; cases h
  | done r rest => rw [hr] at h; cases h
  | fault f =>
    rw [hr] at h
    obtain ⟨hf, rfl⟩ := Prod.mk.inj h
    obtain rfl := Except.error.inj hf
    exact ⟨rfl, rfl⟩

end RespStore.Wire
