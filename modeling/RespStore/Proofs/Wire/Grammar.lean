import RespStore.Proofs.Pieces
import RespStore.Proofs.Wire.LongLine
import RespStore.Proofs.Wire.LongNumeral

/-! The grammar of requests. A request is an array of bulks or a line of words, and before it there may be blank lines
and the headers of arrays without items. What a decoder takes off a stream is exactly this, and there is only one way
to see it there. -/

namespace RespStore.Wire

open Numeral

namespace Reader

variable {α β : Type} {r : Reader α} {g : α → Bytes → Prop}

/-- Takes off the front of the bytes exactly what the grammar has for the value. -/
structure Reads (r : Reader α) (g : α → Bytes → Prop) : Prop where
  sound : ∀ {b : Bytes} {a : α} {rest : Bytes}, r b = .done a rest → ∃ u, g a u ∧ u ++ rest = b
  complete : ∀ {a : α} {u : Bytes}, g a u → ∀ rest, r (u ++ rest) = .done a rest

theorem reads_give (a : α) : (give a).Reads fun c u => c = a ∧ u = [] where
  sound h := by
    obtain ⟨rfl, rfl⟩ := Progress.done.inj h
    exact ⟨[], ⟨rfl, rfl⟩, rfl⟩
  complete := by
    rintro c u ⟨rfl, rfl⟩ rest
    rfl

theorem reads_fail (f : ProtocolFault) : (fail f : Reader α).Reads fun _ _ => False where
  sound h := by cases h
  complete h := h.elim

theorem Reads.andThen {f : α → Reader β} {h : α → β → Bytes → Prop} (hr : r.Reads g) (hf : ∀ a, (f a).Reads (h a)) :
    (r.andThen f).Reads fun c u => ∃ a v w, g a v ∧ h a c w ∧ v ++ w = u where
  sound hdone := by
    obtain ⟨a, t, ha, hc⟩ := exists_of_andThen_done hdone
    obtain ⟨v, hv, rfl⟩ := hr.sound ha
    obtain ⟨w, hw, rfl⟩ := (hf a).sound hc
    exact ⟨v ++ w, ⟨a, v, w, hv, hw, rfl⟩, List.append_assoc v w _⟩
  complete := by
    rintro c u ⟨a, v, w, hv, hw, rfl⟩ rest
    rw [List.append_assoc, Reader.andThen, hr.complete hv (w ++ rest)]
    exact (hf a).complete hw rest

theorem Reads.of_iff {g' : α → Bytes → Prop} (hr : r.Reads g) (h : ∀ a u, g a u ↔ g' a u) : r.Reads g' where
  sound hd := by
    obtain ⟨u, hu, hb⟩ := hr.sound hd
    exact ⟨u, (h _ u).mp hu, hb⟩
  complete hu := hr.complete ((h _ _).mpr hu)

theorem Reads.unique (hr : r.Reads g) {a a' : α} {u u' x x' : Bytes} (h : g a u) (h' : g a' u')
    (hb : u ++ x = u' ++ x') : a = a' ∧ u = u' ∧ x = x' := by
  have hdone : r (u' ++ x') = .done a x := hb ▸ hr.complete h x
  rw [hr.complete h' x'] at hdone
  obtain ⟨rfl, rfl⟩ := Progress.done.inj hdone
  exact ⟨rfl, List.append_cancel_right hb, rfl⟩

end Reader

open Reader

def Header (n : Int) (u : Bytes) : Prop := ∃ w : Spelling, ¬w.IsLong ∧ w.number = n ∧ w.toBytes ++ crlf = u

def Bulk (limits : Limits) (data u : Bytes) : Prop :=
  data.length ≤ limits.bulk ∧ ∃ h, Header data.length h ∧ bulkMark :: (h ++ (data ++ crlf)) = u

inductive Bulks (limits : Limits) : List Bytes → Bytes → Prop
  | nil : Bulks limits [] []
  | cons {data u v : Bytes} {parts : List Bytes} : Bulk limits data u → Bulks limits parts v →
      Bulks limits (data :: parts) (u ++ v)

/-- A blank line, or the header of an array without items. A limit below zero lets no such header pass. -/
inductive Skipped (limits : Limits) : Bytes → Prop
  | blank {l : Bytes} : lf ∉ l → (∀ b ∈ l, isAsciiBlank b = true) → Skipped limits (l ++ [lf])
  | empty {n : Int} {h : Bytes} : Header n h → n = -1 ∨ n = 0 → n ≤ limits.array → Skipped limits (starMark :: h)

/-- The bytes of a request with these parts. -/
inductive Written (limits : Limits) : List Bytes → Bytes → Prop
  | array {h u : Bytes} {parts : List Bytes} : Header parts.length h → 1 ≤ parts.length →
      parts.length ≤ limits.array → Bulks limits parts u → Written limits parts (starMark :: h ++ u)
  | line {l : Bytes} {words : List Bytes} : lf ∉ l → l.head? ≠ some starMark → words ≠ [] →
      Pieces.Spaced isAsciiBlank l words → Written limits words (l ++ [lf])

/-- A stream with a request in it: what is passed over, the bytes of the request, and what follows. -/
structure Parse (limits : Limits) (s : Bytes) where
  skipped : List Bytes
  parts : List Bytes
  bytes : Bytes
  rest : Bytes
  idle : ∀ k ∈ skipped, Skipped limits k
  written : Written limits parts bytes
  whole : skipped.flatten ++ (bytes ++ rest) = s

section Readers

variable {limits : Limits}

theorem reads_number (bad : ProtocolFault) : (number limits bad).Reads Header where
  sound {b n rest} h := by
    obtain ⟨l, t, hl, hn⟩ := exists_of_andThen_done h
    obtain rfl := eq_of_line hl
    have hl : read l = .ok n ∧ t = rest := by
      unfold numeral at hn
      split at hn
      · rename_i hread
        obtain ⟨rfl, rfl⟩ := Progress.done.inj hn
        exact ⟨hread, rfl⟩
      · cases hn
      · cases hn
    obtain ⟨hread, rfl⟩ := hl
    obtain ⟨w, rfl⟩ := exists_spelling (by rw [hread]; simp)
    rw [read_toBytes] at hread
    split at hread
    · cases hread
    · rename_i hw
      exact ⟨_, ⟨w, hw, Except.ok.inj hread, rfl⟩, rfl⟩
  complete := by
    rintro n u ⟨w, hw, rfl, rfl⟩ rest
    have hread : read w.toBytes = .ok w.number := by rw [read_toBytes, if_neg hw]
    rw [number, Reader.andThen, line_of_not_mem limits (cr_not_mem_spelling w)]
    simp only [numeral, hread]

theorem reads_body (k : Nat) : (body k).Reads fun data u => data.length = k ∧ data ++ crlf = u where
  sound {b data rest} h := by
    unfold body at h
    split at h
    · rename_i x y t ht
      split at h
      · rename_i hxy
        obtain ⟨rfl, rfl⟩ := Progress.done.inj h
        obtain ⟨rfl, rfl⟩ := hxy
        have hlength : k ≤ b.length := by
          have := congrArg List.length ht
          simp only [List.length_drop, List.length_cons] at this
          omega
        refine ⟨_, ⟨List.length_take_of_le hlength, rfl⟩, ?_⟩
        rw [List.append_assoc]
        exact (congrArg (b.take k ++ ·) ht.symm).trans (List.take_append_drop k b)
      · cases h
    · cases h
  complete := by
    rintro data u ⟨rfl, rfl⟩ rest
    exact body_append data rest

theorem reads_argumentBody (n : Int) :
    (argumentBody limits n).Reads fun data u => data.length = n ∧ n ≤ limits.bulk ∧ data ++ crlf = u := by
  unfold argumentBody
  split
  · refine (reads_fail _).of_iff fun data u => ?_
    constructor
    · exact False.elim
    · rintro ⟨hl, hn, -⟩
      omega
  · refine (reads_body n.toNat).of_iff fun data u => ?_
    constructor
    · rintro ⟨hl, hu⟩
      exact ⟨by omega, by omega, hu⟩
    · rintro ⟨hl, -, hu⟩
      exact ⟨by omega, hu⟩

theorem reads_argument : (argument limits).Reads (Bulk limits) where
  sound {b data rest} h := by
    cases b with
    | nil => cases h
    | cons t b =>
      rw [argument] at h
      split at h
      · rename_i ht
        obtain ⟨u, ⟨n, v, w, hv, ⟨rfl, hn, rfl⟩, rfl⟩, rfl⟩ :=
          ((reads_number _).andThen reads_argumentBody).sound h
        exact ⟨_, ⟨hn, v, hv, rfl⟩, by rw [ht, List.cons_append]⟩
      · cases h
  complete := by
    rintro data u ⟨hn, v, hv, rfl⟩ rest
    rw [List.cons_append, argument, if_pos rfl]
    exact ((reads_number _).andThen reads_argumentBody).complete ⟨_, v, _, hv, ⟨rfl, hn, rfl⟩, rfl⟩ rest

theorem reads_inlineWords :
    (inlineWords limits).Reads fun ws u => ∃ l, lf ∉ l ∧ Pieces.Spaced isAsciiBlank l ws ∧ l ++ [lf] = u where
  sound {b ws rest} h := by
    unfold inlineWords at h
    split at h
    · rename_i i hi
      obtain ⟨rfl, rfl⟩ := Progress.done.inj h
      -- The line goes up to the first LF, so there is none in it.
      obtain ⟨hlt, hlf, hbefore⟩ := List.findIdx?_eq_some_iff_getElem.mp hi
      have hmem : lf ∉ b.take i := by
        intro hmem
        obtain ⟨j, hj, hjlf⟩ := List.mem_take_iff_getElem.mp hmem
        exact hbefore j (by omega) (decide_eq_true hjlf)
      refine ⟨_, ⟨b.take i, hmem, Pieces.spaced_iff.mpr rfl, rfl⟩, ?_⟩
      rw [List.append_assoc, List.singleton_append, ← of_decide_eq_true hlf, List.getElem_cons_drop,
        List.take_append_drop]
    · split at h <;> cases h
  complete := by
    rintro ws u ⟨l, hl, hws, rfl⟩ rest
    rw [List.append_assoc, List.singleton_append, inlineWords_ended hl, Pieces.spaced_iff.mp hws]

inductive Opens (limits : Limits) : Opening → Bytes → Prop
  | skipped {u : Bytes} : Skipped limits u → Opens limits .skipped u
  | arguments {n : Nat} {h : Bytes} : Header n h → 1 ≤ n → n ≤ limits.array →
      Opens limits (.arguments n) (starMark :: h)
  | words {l w : Bytes} {ws : List Bytes} : lf ∉ l → l.head? ≠ some starMark → Pieces.Spaced isAsciiBlank l (w :: ws) →
      Opens limits (.words w ws) (l ++ [lf])

theorem reads_openingOfCount (n : Int) :
    (openingOfCount limits n).Reads fun o u =>
      -1 ≤ n ∧ n ≤ limits.array ∧ o = (if 0 < n then .arguments n.toNat else .skipped) ∧ u = [] := by
  unfold openingOfCount
  split
  · refine (reads_fail _).of_iff fun o u => ?_
    constructor
    · exact False.elim
    · rintro ⟨hleast, hgreatest, -⟩
      omega
  · split
    · refine (reads_give _).of_iff fun o u => ?_
      constructor
      · exact fun h => ⟨by omega, by omega, h⟩
      · exact fun h => h.2.2
    · refine (reads_give _).of_iff fun o u => ?_
      constructor
      · exact fun h => ⟨by omega, by omega, h⟩
      · exact fun h => h.2.2

theorem reads_openingOfWords :
    ((inlineWords limits).andThen fun ws => give (Opening.ofWords ws)).Reads fun o u =>
      ∃ l ws, lf ∉ l ∧ Pieces.Spaced isAsciiBlank l ws ∧ .ofWords ws = o ∧ l ++ [lf] = u := by
  refine (reads_inlineWords.andThen fun ws => reads_give (Opening.ofWords ws)).of_iff fun o u => ?_
  constructor
  · rintro ⟨ws, v, w, ⟨l, hl, hws, rfl⟩, ⟨rfl, rfl⟩, rfl⟩
    exact ⟨l, ws, hl, hws, rfl, (List.append_nil _).symm⟩
  · rintro ⟨l, ws, hl, hws, rfl, rfl⟩
    exact ⟨ws, l ++ [lf], [], ⟨l, hl, hws, rfl⟩, ⟨rfl, rfl⟩, List.append_nil _⟩

theorem opening_line {l : Bytes} {ws : List Bytes} (hl : lf ∉ l) (hhead : l.head? ≠ some starMark)
    (hws : Pieces.Spaced isAsciiBlank l ws) (rest : Bytes) :
    opening limits (l ++ [lf] ++ rest) = .done (.ofWords ws) rest := by
  have hplain : (l ++ [lf] ++ rest).head? ≠ some starMark := by
    cases l with
    | nil => exact fun h => absurd (Option.some.inj h) (by decide)
    | cons => exact hhead
  rw [opening_of_plain (by simp) hplain]
  exact reads_openingOfWords.complete ⟨l, ws, hl, hws, rfl, rfl⟩ rest

theorem opening_header {n : Int} {v : Bytes} (hv : Header n v) (hleast : -1 ≤ n) (hgreatest : n ≤ limits.array)
    (rest : Bytes) :
    opening limits (starMark :: v ++ rest) = .done (if 0 < n then .arguments n.toNat else .skipped) rest := by
  rw [List.cons_append, opening_cons, if_pos rfl]
  exact ((reads_number _).andThen reads_openingOfCount).complete
    ⟨n, v, [], hv, ⟨hleast, hgreatest, rfl, rfl⟩, List.append_nil v⟩ rest

theorem reads_opening : (opening limits).Reads (Opens limits) where
  sound {b o rest} h := by
    cases b with
    | nil => cases h
    | cons t b =>
      rw [opening_cons] at h
      split at h
      · rename_i ht
        obtain ⟨u, ⟨n, v, w, hv, ⟨hleast, hgreatest, rfl, rfl⟩, rfl⟩, rfl⟩ :=
          ((reads_number _).andThen reads_openingOfCount).sound h
        refine ⟨starMark :: v, ?_, by rw [ht, List.append_nil, List.cons_append]⟩
        split
        · obtain ⟨k, rfl⟩ := Int.eq_ofNat_of_zero_le (by omega : 0 ≤ n)
          exact .arguments hv (by omega) hgreatest
        · exact .skipped (.empty hv (by omega) hgreatest)
      · rename_i ht
        obtain ⟨u, ⟨l, ws, hl, hws, rfl, rfl⟩, hb⟩ := reads_openingOfWords.sound h
        refine ⟨l ++ [lf], ?_, hb⟩
        cases ws with
        | nil => exact .skipped (.blank hl (hws.blank_of_nil rfl))
        | cons w ws =>
          refine .words hl (fun hhead => ht ?_) hws
          obtain ⟨l, rfl⟩ := List.head?_eq_some_iff.mp hhead
          exact (List.cons.inj hb).1.symm
  complete := by
    intro o u h rest
    cases h with
    | skipped h =>
      cases h with
      | @blank l hl hblank =>
        refine opening_line hl ?_ (Pieces.spaced_iff.mpr (Pieces.words_eq_nil_iff.mpr hblank).symm) rest
        intro hhead
        exact absurd (hblank starMark (List.mem_of_mem_head? hhead)) (by decide)
      | empty hv hn hgreatest => rw [opening_header hv (by omega) hgreatest, if_neg (by omega)]
    | arguments hv hn hgreatest =>
      rw [opening_header hv (by omega) hgreatest, if_pos (by omega)]
      rfl
    | words hl hhead hws => exact opening_line hl hhead hws rest

end Readers

section Scans

variable {limits : Limits} {b rest : Bytes} {n : Nat} {args : List Bytes} {r : Request}

theorem fill_iff : (fill limits n args b).found = .ok (some r) ∧ (fill limits n args b).rest = rest ↔
    ∃ parts u, Bulks limits parts u ∧ parts.length = n ∧ .ofParts (args.reverse ++ parts) = r ∧ u ++ rest = b := by
  constructor
  · -- The induction is on how many arguments are missing, for any that are there already.
    intro h
    induction n generalizing args b with
    | zero =>
      obtain ⟨hr, rfl⟩ := h
      exact ⟨[], [], .nil, rfl, by simpa [fill] using hr, rfl⟩
    | succ n ih =>
      rw [fill] at h
      split at h
      · exact absurd h.1 (by simp)
      · exact absurd h.1 (by simp)
      · rename_i data t hdata
        obtain ⟨v, hv, rfl⟩ := reads_argument.sound hdata
        obtain ⟨parts, u, hu, rfl, rfl, rfl⟩ := ih h
        exact ⟨data :: parts, v ++ u, .cons hv hu, rfl, by simp, List.append_assoc v u rest⟩
  · rintro ⟨parts, u, hu, rfl, rfl, rfl⟩
    induction hu generalizing args with
    | nil => simp [fill]
    | @cons data v u parts hv hu ih =>
      have hdata : argument limits (v ++ u ++ rest) = .done data (u ++ rest) := by
        rw [List.append_assoc]
        exact reads_argument.complete hv (u ++ rest)
      rw [List.length_cons, fill, hdata]
      simpa using @ih (data :: args)

theorem seek_sound (h : (seek limits b).found = .ok (some r)) :
    ∃ p : Parse limits b, .ofParts p.parts = r ∧ p.rest = (seek limits b).rest := by
  -- Along the search: only something passed over makes the parse of what is left longer.
  fun_induction seek limits b with
  | case1 => simp at h
  | case2 => simp at h
  | case3 b t ho ih =>
    obtain ⟨u, hu, rfl⟩ := reads_opening.sound ho
    obtain ⟨p, hr, hrest⟩ := ih h
    cases hu with
    | skipped hu =>
      exact ⟨⟨u :: p.skipped, p.parts, p.bytes, p.rest, List.forall_mem_cons.mpr ⟨hu, p.idle⟩, p.written,
        by rw [List.flatten_cons, List.append_assoc, p.whole]⟩, hr, hrest⟩
  | case4 b n t ho =>
    obtain ⟨u, hu, rfl⟩ := reads_opening.sound ho
    obtain ⟨parts, v, hv, rfl, rfl, ht⟩ := fill_iff.mp ⟨h, rfl⟩
    cases hu with
    | arguments hheader hleast hgreatest =>
      exact ⟨⟨[], parts, _, _, List.forall_mem_nil _, .array hheader hleast hgreatest hv,
        by rw [List.flatten_nil, List.nil_append, List.append_assoc, ht]⟩, rfl, rfl⟩
  | case5 b w ws t ho =>
    obtain ⟨u, hu, rfl⟩ := reads_opening.sound ho
    obtain rfl := Option.some.inj (Except.ok.inj h)
    cases hu with
    | words hl hhead hws =>
      exact ⟨⟨[], w :: ws, _, t, List.forall_mem_nil _, .line hl hhead (List.cons_ne_nil w ws) hws, rfl⟩, rfl, rfl⟩

theorem seek_complete {skipped parts : List Bytes} {u : Bytes} (hidle : ∀ k ∈ skipped, Skipped limits k)
    (hwritten : Written limits parts u) :
    (seek limits (skipped.flatten ++ (u ++ rest))).found = .ok (some (.ofParts parts)) ∧
      (seek limits (skipped.flatten ++ (u ++ rest))).rest = rest := by
  induction skipped with
  | nil =>
    rw [List.flatten_nil, List.nil_append]
    cases hwritten with
    | @array h v _ hheader hleast hgreatest hv =>
      have ho : opening limits (starMark :: h ++ v ++ rest) = .done (.arguments parts.length) (v ++ rest) := by
        rw [List.append_assoc]
        exact reads_opening.complete (.arguments hheader hleast hgreatest) (v ++ rest)
      rw [seek_eq, ho]
      exact fill_iff.mpr ⟨parts, v, hv, rfl, rfl, rfl⟩
    | line hl hhead hne hws =>
      obtain ⟨w, ws, rfl⟩ := List.exists_cons_of_ne_nil hne
      rw [seek_eq, reads_opening.complete (.words hl hhead hws)]
      exact ⟨rfl, rfl⟩
  | cons k ks ih =>
    rw [List.forall_mem_cons] at hidle
    rw [List.flatten_cons, List.append_assoc, seek_eq, reads_opening.complete (.skipped hidle.1)]
    exact ih hidle.2

end Scans

section Uniqueness

variable {limits : Limits} {s u u' x x' : Bytes} {parts parts' : List Bytes}

theorem Bulks.unique (h : Bulks limits parts u) (h' : Bulks limits parts' u') (hlength : parts.length = parts'.length)
    (hb : u ++ x = u' ++ x') : parts = parts' ∧ u = u' ∧ x = x' := by
  induction h generalizing parts' u' with
  | nil =>
    cases h' with
    | nil => exact ⟨rfl, rfl, hb⟩
    | cons => cases hlength
  | cons hdata _ ih =>
    cases h' with
    | nil => cases hlength
    | cons hdata' hparts' =>
      rw [List.append_assoc, List.append_assoc] at hb
      obtain ⟨rfl, rfl, hrest⟩ := reads_argument.unique hdata hdata' hb
      obtain ⟨rfl, rfl, rfl⟩ := ih hparts' (Nat.succ.inj hlength) hrest
      exact ⟨rfl, rfl, rfl⟩

theorem Written.unique (h : Written limits parts u) (h' : Written limits parts' u') (hb : u ++ x = u' ++ x') :
    parts = parts' ∧ u = u' ∧ x = x' := by
  -- Both open with the same, and this tells the form and, of an array, the number of its bulks.
  cases h with
  | array hheader hleast hgreatest hparts =>
    have ho : Opens limits _ _ := .arguments hheader hleast hgreatest
    rw [List.append_assoc] at hb
    cases h' with
    | array hheader' hleast' hgreatest' hparts' =>
      rw [List.append_assoc] at hb
      obtain ⟨hlength, hh, hrest⟩ := reads_opening.unique ho (.arguments hheader' hleast' hgreatest') hb
      obtain ⟨rfl, rfl, rfl⟩ := hparts.unique hparts' (Opening.arguments.inj hlength) hrest
      exact ⟨rfl, by rw [hh], rfl⟩
    | line hl' hhead' hne' hws' =>
      obtain ⟨w', ws', rfl⟩ := List.exists_cons_of_ne_nil hne'
      cases (reads_opening.unique ho (.words hl' hhead' hws') hb).1
  | line hl hhead hne hws =>
    obtain ⟨w, ws, rfl⟩ := List.exists_cons_of_ne_nil hne
    have ho : Opens limits _ _ := .words hl hhead hws
    cases h' with
    | array hheader' hleast' hgreatest' hparts' =>
      rw [List.append_assoc _ _ x'] at hb
      cases (reads_opening.unique ho (.arguments hheader' hleast' hgreatest') hb).1
    | line hl' hhead' hne' hws' =>
      obtain ⟨w', ws', rfl⟩ := List.exists_cons_of_ne_nil hne'
      obtain ⟨hwords, hu, hx⟩ := reads_opening.unique ho (.words hl' hhead' hws') hb
      obtain ⟨rfl, rfl⟩ := Opening.words.inj hwords
      exact ⟨rfl, hu, hx⟩

theorem Written.opens (h : Written limits parts u) (x : Bytes) :
    ∃ o v y, o ≠ .skipped ∧ Opens limits o v ∧ u ++ x = v ++ y := by
  cases h with
  | @array h v _ hheader hleast hgreatest _ =>
    exact ⟨_, starMark :: h, v ++ x, Opening.noConfusion, .arguments hheader hleast hgreatest,
      List.append_assoc _ v x⟩
  | line hl hhead hne hws =>
    obtain ⟨w, ws, rfl⟩ := List.exists_cons_of_ne_nil hne
    exact ⟨_, _, x, Opening.noConfusion, .words hl hhead hws, rfl⟩

theorem Skipped.not_written (h : Skipped limits u) (h' : Written limits parts' u') : u ++ x ≠ u' ++ x' := by
  intro hb
  obtain ⟨o, v, y, ho, hv, hu'⟩ := h'.opens x'
  exact ho (reads_opening.unique (.skipped h) hv (hb.trans hu')).1.symm

theorem parse_unique {skipped skipped' : List Bytes} (hidle : ∀ k ∈ skipped, Skipped limits k)
    (hidle' : ∀ k ∈ skipped', Skipped limits k) (h : Written limits parts u) (h' : Written limits parts' u')
    (hb : skipped.flatten ++ (u ++ x) = skipped'.flatten ++ (u' ++ x')) :
    skipped = skipped' ∧ parts = parts' ∧ u = u' ∧ x = x' := by
  induction skipped generalizing skipped' with
  | nil =>
    cases skipped' with
    | nil => exact ⟨rfl, h.unique h' hb⟩
    | cons k' ks' =>
      rw [List.flatten_nil, List.nil_append, List.flatten_cons, List.append_assoc] at hb
      exact absurd hb.symm ((List.forall_mem_cons.mp hidle').1.not_written h)
  | cons k ks ih =>
    rw [List.forall_mem_cons] at hidle
    rw [List.flatten_cons, List.append_assoc] at hb
    cases skipped' with
    | nil =>
      rw [List.flatten_nil, List.nil_append] at hb
      exact absurd hb (hidle.1.not_written h')
    | cons k' ks' =>
      rw [List.forall_mem_cons] at hidle'
      rw [List.flatten_cons, List.append_assoc] at hb
      obtain ⟨-, rfl, hrest⟩ := reads_opening.unique (.skipped hidle.1) (.skipped hidle'.1) hb
      obtain ⟨rfl, hwritten⟩ := ih hidle.2 hidle'.2 hrest
      exact ⟨rfl, hwritten⟩

instance : Subsingleton (Parse limits s) where
  allEq p q := by
    obtain ⟨skipped, parts, u, rest, hidle, hwritten, rfl⟩ := p
    obtain ⟨skipped', parts', u', rest', hidle', hwritten', hb⟩ := q
    obtain ⟨rfl, rfl, rfl, rfl⟩ := parse_unique hidle' hidle hwritten' hwritten hb
    rfl

end Uniqueness

/-- A fresh decoder comes to a request in a stream exactly if the grammar has the request there, and keeps what the
grammar leaves. There is one way at most to see a request in a stream. -/
theorem Decoder.next_iff_parse (limits : Limits) (s rest : Bytes) (r : Request) :
    ((({ limits } : Decoder).feed s).next.1 = .ok (some r) ∧ (({ limits } : Decoder).feed s).next.2.buffer = rest ↔
        ∃ p : Parse limits s, .ofParts p.parts = r ∧ p.rest = rest) ∧
      ∀ p q : Parse limits s, p = q := by
  rw [next_feed]
  refine ⟨⟨?_, ?_⟩, Subsingleton.elim⟩
  · rintro ⟨hfound, rfl⟩
    exact seek_sound hfound
  · rintro ⟨⟨skipped, parts, u, rest, hidle, hwritten, rfl⟩, rfl, rfl⟩
    exact seek_complete hidle hwritten

end RespStore.Wire
