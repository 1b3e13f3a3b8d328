import RespStore.Proofs.Wire.Cuts
import RespStore.Proofs.Wire.LongNumeral

/-! How large a request can be. The arguments of an array are within the limit for bulks. A plain line has no such
limit, but without its end it is soon given up, and what one more read brings of it is not much. -/

namespace RespStore.Wire

namespace Reader

variable {α β : Type} {r : Reader α}

structure Reaches (r : Reader α) : Prop where
  suffix : ∀ {b : Bytes} {a : α} {rest : Bytes}, r b = .done a rest → rest <:+ b
  beyond : ∀ {b x : Bytes} {a : α} {rest : Bytes}, r b = .more → r (b ++ x) = .done a rest → rest <:+ x

theorem reaches_fail (f : ProtocolFault) : (fail f : Reader α).Reaches where
  suffix h := by cases h
  beyond h := by cases h

theorem Reaches.andThen {f : α → Reader β} (hr : r.Reaches) (hs : r.Steady) (hf : ∀ a, (f a).Reaches) :
    (r.andThen f).Reaches where
  suffix h := by
    obtain ⟨a, t, ha, hc⟩ := exists_of_andThen_done h
    exact ((hf a).suffix hc).trans (hr.suffix ha)
  beyond {b x c rest} hmore h := by
    obtain ⟨a, t, ha, hc⟩ := exists_of_andThen_done h
    rcases more_of_andThen hmore with hb | ⟨a', t', hb, hc'⟩
    · exact ((hf a).suffix hc).trans (hr.beyond hb ha)
    · obtain ⟨rfl, rfl⟩ := Progress.done.inj ((hs.done hb x).symm.trans ha)
      exact (hf a').beyond hc' hc

end Reader

open Reader

variable {limits : Limits} {b x rest : Bytes}

theorem lineEndFrom_crlf (i : Nat) (l rest : Bytes) : lineEndFrom i (l ++ crlf ++ rest) ≠ none := by
  induction l generalizing i with
  | nil =>
    show lineEndFrom i (cr :: lf :: rest) ≠ none
    rw [lineEndFrom, if_pos ⟨rfl, rfl⟩]
    exact Option.some_ne_none i
  | cons a l ih =>
    rw [List.cons_append, List.cons_append, lineEndFrom]
    split
    · exact Option.some_ne_none i
    · exact ih (i + 1)

theorem line_more_iff : line limits b = .more ↔ lineEndFrom 0 b = none ∧ b.length ≤ limits.line := by
  unfold line
  cases lineEndFrom 0 b with
  | some i => simp
  | none =>
    dsimp only
    split
    · simp; omega
    · simp; omega

theorem line_reaches : (line limits).Reaches where
  suffix h := line_plain.suffix h
  beyond {b x l rest} hmore h := by
    have hnone : lineEndFrom 0 b = none := (line_more_iff.mp hmore).1
    have hsplit : b ++ x = l ++ crlf ++ rest := eq_of_line h
    -- Were the whole line in the bytes before, they would have shown its end.
    have hrest : rest <:+ b ++ x := ⟨_, hsplit.symm⟩
    rcases List.suffix_or_suffix_of_suffix hrest (List.suffix_append b x) with hr | ⟨t, rfl⟩
    · exact hr
    · rw [← List.append_assoc] at hsplit
      have hb : b = l ++ crlf ++ t := List.append_cancel_right hsplit
      rw [hb] at hnone
      exact absurd hnone (lineEndFrom_crlf 0 l t)

theorem numeral_ne_more {bad : ProtocolFault} {l : Bytes} : numeral bad l b ≠ .more := by
  unfold numeral
  split <;> simp

theorem line_more_of_number {bad : ProtocolFault} (h : number limits bad b = .more) : line limits b = .more := by
  rcases Reader.more_of_andThen h with hline | ⟨l, t, -, hnumeral⟩
  · exact hline
  · exact absurd hnumeral numeral_ne_more

theorem numeral_reaches (bad : ProtocolFault) (ds : Bytes) : (numeral bad ds).Reaches where
  suffix {b n rest} h := by
    unfold numeral at h
    split at h
    · exact (Progress.done.inj h).2 ▸ List.suffix_rfl
    · cases h
    · cases h
  beyond hmore := absurd hmore numeral_ne_more

theorem length_le_of_body_more {n : Nat} (h : body n b = .more) : b.length ≤ n + 1 := by
  have hlength : (b.drop n).length ≤ 1 := by
    unfold body at h
    split at h
    · split at h <;> cases h
    · rename_i hshort
      rcases hd : b.drop n with _ | ⟨x, _ | ⟨y, t⟩⟩
      · exact Nat.zero_le 1
      · exact Nat.le_refl 1
      · exact absurd hd (hshort x y t)
  rw [List.length_drop] at hlength
  omega

theorem body_reaches (n : Nat) : (body n).Reaches where
  suffix h := (body_plain n).suffix h
  beyond {b x data rest} hmore h := by
    have hlength : b.length ≤ n + 1 := length_le_of_body_more hmore
    have hrest : rest = (b ++ x).drop (n + 2) := by
      unfold body at h
      match hd : (b ++ x).drop n, h with
      | y :: z :: t, h =>
        dsimp only at h
        split at h
        · rw [← List.drop_drop, hd, ← (Progress.done.inj h).2]
          rfl
        · cases h
    rw [hrest, List.drop_append, List.drop_eq_nil_of_le (by omega)]
    exact List.drop_suffix _ x

theorem argumentBody_reaches (n : Int) : (argumentBody limits n).Reaches := by
  unfold argumentBody
  split
  · exact reaches_fail _
  · exact body_reaches _

theorem argument_reaches : (argument limits).Reaches := by
  have hlength : ((number limits .bulkLength).andThen (argumentBody limits)).Reaches :=
    (line_reaches.andThen (line_steady limits) (numeral_reaches _)).andThen (number_steady limits _)
      argumentBody_reaches
  have hsuffix : ∀ {b a rest}, argument limits b = .done a rest → rest <:+ b := by
    intro b a rest h
    unfold argument at h
    split at h
    · cases h
    · split at h
      · exact (hlength.suffix h).trans (List.suffix_cons _ _)
      · cases h
  refine ⟨hsuffix, fun {b x a rest} hmore h => ?_⟩
  cases b with
  | nil => exact hsuffix h
  | cons t r =>
    rw [List.cons_append] at h
    unfold argument at hmore h
    dsimp only at hmore h
    split at hmore
    · rename_i ht
      rw [if_pos ht] at h
      exact hlength.beyond hmore h
    · cases hmore

theorem length_le_of_body {n : Nat} {data : Bytes} (h : body n b = .done data rest) : data.length ≤ n := by
  unfold body at h
  split at h
  · split at h
    · rw [← (Progress.done.inj h).1]
      exact List.length_take_le n b
    · cases h
  · cases h

theorem length_le_of_argument {a : Bytes} (h : argument limits b = .done a rest) : a.length ≤ limits.bulk := by
  unfold argument at h
  split at h
  · cases h
  · split at h
    · obtain ⟨n, t, -, hbody⟩ := exists_of_andThen_done h
      unfold argumentBody at hbody
      split at hbody
      · cases hbody
      · have hlength := length_le_of_body hbody
        omega
    · cases h

section Scans

variable {n : Nat} {args : List Bytes} {r : Request}

theorem fill_suffix : (fill limits n args b).rest <:+ b := by
  induction n generalizing args b with
  | zero => exact List.suffix_rfl
  | succ n ih =>
    rw [fill]
    cases ha : argument limits b with
    | more => exact List.suffix_rfl
    | fault e => exact List.suffix_rfl
    | done a rest => exact ih.trans (argument_reaches.suffix ha)

theorem fill_beyond (h : (fill limits n args b).found = .ok none)
    (hx : (fill limits n args (b ++ x)).found = .ok (some r)) : (fill limits n args (b ++ x)).rest <:+ x := by
  induction n generalizing args b with
  | zero => cases h
  | succ n ih =>
    rw [fill] at h hx ⊢
    cases ha : argument limits b with
    | more =>
      cases hb : argument limits (b ++ x) with
      | more =>
        rw [hb] at hx
        cases hx
      | fault e =>
        rw [hb] at hx
        cases hx
      | done a rest => exact fill_suffix.trans (argument_reaches.beyond ha hb)
    | fault e =>
      rw [ha] at h
      cases h
    | done a rest =>
      rw [ha] at h
      rw [(argument_steady limits).done ha x] at hx ⊢
      exact ih h hx

theorem draft_ne_none_of_fill (h : (fill limits n args b).found = .ok none) :
    (fill limits n args b).draft ≠ none := by
  induction n generalizing args b with
  | zero => cases h
  | succ n ih =>
    rw [fill] at h ⊢
    cases ha : argument limits b with
    | more => exact Option.some_ne_none _
    | fault e => exact Option.some_ne_none _
    | done a rest =>
      rw [ha] at h
      exact ih h

theorem opening_more_of_seek (h : (seek limits b).found = .ok none) (hd : (seek limits b).draft = none) :
    opening limits (seek limits b).rest = .more := by
  fun_induction seek limits b with
  | case1 b ho => exact ho
  | case2 => cases h
  | case3 b rest ho ih => exact ih h hd
  | case4 b n rest ho => exact absurd hd (draft_ne_none_of_fill h)
  | case5 => cases h

theorem openingOfCount_ne_more {k : Int} : openingOfCount limits k b ≠ .more := by
  unfold openingOfCount
  split
  · simp [Reader.fail]
  · split <;> simp [Reader.give]

theorem length_le_of_inlineWords_more (h : inlineWords limits b = .more) : b.length ≤ limits.line := by
  unfold inlineWords at h
  split at h
  · cases h
  · split at h
    · cases h
    · omega

theorem length_le_of_opening_more (h : opening limits b = .more) : b = [] ∨ b.length ≤ limits.line + 1 := by
  cases b with
  | nil => exact .inl rfl
  | cons t r =>
    right
    rw [opening_cons] at h
    split at h
    · rcases more_of_andThen h with hnumber | ⟨k, u, -, hcount⟩
      · have hlength : r.length ≤ limits.line := (line_more_iff.mp (line_more_of_number hnumber)).2
        rw [List.length_cons]
        omega
      · exact absurd hcount openingOfCount_ne_more
    · rcases more_of_andThen h with hwords | ⟨ws, u, -, hgive⟩
      · have hlength : ((t :: r).length : Int) ≤ limits.line := length_le_of_inlineWords_more hwords
        omega
      · cases hgive

theorem length_le_of_mem_split {parts : UInt8 → Bool} {xs w : Bytes} (h : w ∈ Pieces.split parts xs) :
    w.length ≤ xs.length := by
  induction xs generalizing w with
  | nil =>
    rw [List.mem_singleton.mp h]
  | cons a xs ih =>
    rw [Pieces.split_cons] at h
    rw [List.length_cons]
    split at h
    · rcases List.mem_cons.mp h with rfl | h
      · exact Nat.zero_le _
      · exact Nat.le_succ_of_le (ih h)
    · cases hs : Pieces.split parts xs with
      | nil => exact absurd hs (Pieces.split_ne_nil parts xs)
      | cons p ps =>
        rw [hs] at h ih
        rcases List.mem_cons.mp h with rfl | h
        · exact Nat.succ_le_succ (ih List.mem_cons_self)
        · exact Nat.le_succ_of_le (ih (List.mem_cons_of_mem p h))

theorem length_le_of_words {w : Bytes} {ws : List Bytes} (h : opening limits b = .done (.words w ws) rest) :
    ∀ a ∈ w :: ws, a.length ≤ b.length := by
  unfold opening at h
  split at h
  · cases h
  · rename_i t r
    split at h
    · obtain ⟨n, u, -, hcount⟩ := exists_of_andThen_done h
      unfold openingOfCount at hcount
      split at hcount
      · cases hcount
      · split at hcount <;> cases (Progress.done.inj hcount).1
    · obtain ⟨vs, u, hwords, hopening⟩ := exists_of_andThen_done h
      have hvs : vs = w :: ws := by
        have heq := (Progress.done.inj hopening).1
        cases vs with
        | nil => cases heq
        | cons v vs =>
          obtain ⟨rfl, rfl⟩ := Opening.words.inj heq
          rfl
      unfold inlineWords at hwords
      split at hwords
      · rename_i i hi
        intro a ha
        have hmem : a ∈ Pieces.words isAsciiBlank ((t :: r).take i) := by
          rw [(Progress.done.inj hwords).1, hvs]
          exact ha
        have hlength := length_le_of_mem_split (List.mem_filter.mp hmem).1
        exact Nat.le_trans hlength (List.length_take_le' i _)
      · split at hwords <;> cases hwords

theorem mem_of_mem_args_ofParts {parts : List Bytes} {a : Bytes} (h : a ∈ (Request.ofParts parts).args) :
    a ∈ parts := by
  cases parts with
  | nil => cases h
  | cons name args => exact List.mem_cons_of_mem name h

structure Scan.Moderate (limits : Limits) (s : Scan) : Prop where
  request : ∀ {r}, s.found = .ok (some r) → ∀ a ∈ r.args, a.length ≤ limits.bulk
  draft : ∀ {d}, s.draft = some d → ∀ a ∈ d.args, a.length ≤ limits.bulk

theorem fill_moderate (hargs : ∀ a ∈ args, a.length ≤ limits.bulk) : (fill limits n args b).Moderate limits := by
  induction n generalizing args b with
  | zero =>
    refine ⟨fun h a ha => ?_, fun h => by cases h⟩
    obtain rfl := Option.some.inj (Except.ok.inj h)
    exact hargs a (List.mem_reverse.mp (mem_of_mem_args_ofParts ha))
  | succ n ih =>
    rw [fill]
    cases ha : argument limits b with
    | more =>
      refine ⟨fun h => by (cases h), fun h a ha => ?_⟩
      obtain rfl := Option.some.inj h
      exact hargs a ha
    | fault e =>
      refine ⟨fun h => by (cases h), fun h a ha => ?_⟩
      obtain rfl := Option.some.inj h
      exact hargs a ha
    | done a rest =>
      refine ih fun x hx => ?_
      rcases List.mem_cons.mp hx with rfl | hx
      · exact length_le_of_argument ha
      · exact hargs x hx

theorem seek_moderate (hb : b.length ≤ limits.bulk) : (seek limits b).Moderate limits := by
  fun_induction seek limits b with
  | case1 => exact ⟨fun h => by (cases h), fun h => by cases h⟩
  | case2 => exact ⟨fun h => by (cases h), fun h => by cases h⟩
  | case3 b rest ho ih =>
    have hlt : rest.length < b.length := opening_shortens limits ho
    exact ih (by omega)
  | case4 b n rest ho => exact fill_moderate fun a ha => by cases ha
  | case5 b w ws rest ho =>
    refine ⟨fun h a ha => ?_, fun h => by cases h⟩
    obtain rfl := Option.some.inj (Except.ok.inj h)
    have hlength := length_le_of_words ho a (mem_of_mem_args_ofParts ha)
    omega

end Scans

namespace Decoder

variable {d e : Decoder}

structure Idle (d : Decoder) : Prop where
  limits : d.limits = {}
  waits : d.next = (.ok none, d)
  draft : ∀ {x}, d.draft = some x → ∀ a ∈ x.args, a.length ≤ ({} : Limits).bulk

theorem idle_fresh : ({} : Decoder).Idle := ⟨rfl, next_fresh {}, fun h => by cases h⟩

theorem scan_of_next {x : Except DecodeError (Option Request)} (h : d.next = (x, e)) :
    (scan d.limits d.buffer d.draft).found = x ∧ e.limits = d.limits ∧
      e.buffer = (scan d.limits d.buffer d.draft).rest ∧ e.draft = (scan d.limits d.buffer d.draft).draft := by
  rw [next, Prod.mk.injEq] at h
  obtain ⟨hx, rfl⟩ := h
  exact ⟨hx, rfl, rfl, rfl⟩

structure Moderates (x : Decoding) : Prop where
  requests : ∀ r ∈ x.requests, ∀ a ∈ r.args, a.length ≤ ({} : Limits).bulk
  idle : x.fault = none → x.decoder.Idle

theorem moderates_of_scan {x : Except DecodeError (Option Request)} (hd : d.limits = {}) (h : d.next = (x, e))
    (hs : (scan d.limits d.buffer d.draft).Moderate {}) (hx : ∀ r, x ≠ .ok (some r)) : Moderates d.drain := by
  obtain ⟨-, hlimits, -, hdraft⟩ := scan_of_next h
  match x, h, hx with
  | .error f, h, _ =>
    rw [drain_of_error h]
    exact ⟨fun r hr => by (cases hr), fun hf => by cases hf⟩
  | .ok none, h, _ =>
    rw [drain_of_none h]
    refine ⟨fun r hr => by (cases hr), fun _ => ⟨hlimits.trans hd, next_of_none h, fun hx => ?_⟩⟩
    exact hs.draft (hdraft.symm.trans hx)
  | .ok (some r), _, hx => exact absurd rfl (hx r)

theorem moderates_after {r : Request} {x : Decoding} (hr : ∀ a ∈ r.args, a.length ≤ ({} : Limits).bulk)
    (hx : Moderates x) : Moderates (x.after [r]) := by
  refine ⟨fun q hq => ?_, hx.idle⟩
  rcases List.mem_cons.mp hq with rfl | hq
  · exact hr
  · exact hx.requests q hq

theorem drain_moderates_of_short (hlimits : d.limits = {}) (hdraft : d.draft = none)
    (hlength : d.buffer.length ≤ ({} : Limits).bulk) : Moderates d.drain := by
  induction hn : d.buffer.length using Nat.strongRecOn generalizing d with
  | ind n ih =>
    have hscan : (scan d.limits d.buffer d.draft).Moderate {} := by
      rw [hlimits, hdraft]
      exact seek_moderate hlength
    rcases hx : d.next with ⟨x, e⟩
    obtain ⟨hfound, hlimits', hbuffer, hdraft'⟩ := scan_of_next hx
    rcases x with f | _ | r
    · exact moderates_of_scan hlimits hx hscan fun r hr => by cases hr
    · exact moderates_of_scan hlimits hx hscan fun r hr => by cases hr
    · rw [drain_of_found hx]
      have hseek : scan d.limits d.buffer d.draft = seek d.limits d.buffer := by rw [hdraft, scan]
      rw [hseek] at hfound hbuffer hdraft'
      have hlt : e.buffer.length < n := by
        rw [hbuffer, ← hn]
        exact seek_length hfound
      refine moderates_after (hscan.request (by rw [hseek]; exact hfound)) ?_
      exact ih _ hlt (hlimits'.trans hlimits) (hdraft'.trans (draft_seek hfound)) (by omega) rfl

theorem Idle.drain_moderates (hd : d.Idle) {data : Bytes} (hdata : data.length ≤ 64 * 1024) :
    Moderates (d.feed data).drain := by
  obtain ⟨limits, buffer, draft⟩ := d
  obtain rfl : limits = {} := hd.limits
  obtain ⟨hfound, -, hbuffer, hdraft⟩ := scan_of_next hd.waits
  cases draft with
  | none =>
    have hopening : opening {} buffer = .more := by
      have hrest : (seek {} buffer).rest = buffer := hbuffer.symm
      have hmore : opening {} (seek {} buffer).rest = .more := opening_more_of_seek hfound hdraft.symm
      rwa [hrest] at hmore
    have hlength : buffer.length ≤ 64 * 1024 + 1 := by
      rcases length_le_of_opening_more hopening with rfl | h
      · exact Nat.zero_le _
      · simpa using h
    refine drain_moderates_of_short rfl rfl ?_
    show (((buffer ++ data).length : Nat) : Int) ≤ 512 * 1024 * 1024
    rw [List.length_append]
    omega
  | some x =>
    -- The draft is completed by bytes of this read, and what follows is no more than the read.
    have hscan : (fill {} x.missing x.args (buffer ++ data)).Moderate {} := fill_moderate (hd.draft rfl)
    rcases hx : (Decoder.feed ⟨{}, buffer, some x⟩ data).next with ⟨y, e⟩
    obtain ⟨hfound', hlimits', hbuffer', hdraft'⟩ := scan_of_next hx
    rcases y with f | _ | r
    · exact moderates_of_scan rfl hx hscan fun r hr => by cases hr
    · exact moderates_of_scan rfl hx hscan fun r hr => by cases hr
    · have hrest : e.buffer <:+ data := hbuffer' ▸ fill_beyond hfound hfound'
      have hle : e.buffer.length ≤ data.length := hrest.length_le
      rw [drain_of_found hx]
      refine moderates_after (hscan.request hfound') ?_
      refine drain_moderates_of_short hlimits' (hdraft'.trans (draft_fill hfound')) ?_
      show ((e.buffer.length : Nat) : Int) ≤ 512 * 1024 * 1024
      omega

end Decoder

end RespStore.Wire
