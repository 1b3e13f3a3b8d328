import RespStore.Proofs.Wire.Grammar
import RespStore.Proofs.Wire.Pipeline
import RespStore.Proofs.Wire.Reach

/-! How a decoder of requests stands between two calls, whatever has been asked of it before. What it keeps of a request
is no more than an array may have; a request that it gives has used up bytes, so that a buffer does not give requests
for ever; and where it waits or is at fault, it stays as it is until more bytes are fed. -/

namespace RespStore.Wire

structure Draft.Within (limits : Limits) (x : Draft) : Prop where
  missing_pos : 1 ≤ x.missing
  count_le : ((x.missing + x.args.length : Nat) : Int) ≤ limits.array

/-- A scan that has found no request would come to the same if it were made again from where it stopped. -/
def Scan.Stays (limits : Limits) (s : Scan) : Prop :=
  (∀ r, s.found ≠ .ok (some r)) → scan limits s.rest s.draft = s

section Scans

variable {limits : Limits} {b rest : Bytes} {n : Nat} {args : List Bytes} {r : Request} {d : Option Draft}

theorem fill_within (h : ((n + args.length : Nat) : Int) ≤ limits.array) :
    ∀ x ∈ (fill limits n args b).draft, x.Within limits := by
  induction n generalizing args b with
  | zero =>
    intro x hx
    cases hx
  | succ n ih =>
    have hdraft : ∀ x ∈ some (⟨n + 1, args⟩ : Draft), x.Within limits := by
      intro x hx
      obtain rfl := Option.some.inj hx
      exact ⟨Nat.succ_pos n, h⟩
    rw [fill]
    cases ha : argument limits b with
    | more => exact hdraft
    | fault e => exact hdraft
    | done a rest =>
      apply ih
      rw [List.length_cons]
      omega

theorem count_of_opening (h : opening limits b = .done (.arguments n) rest) : 1 ≤ n ∧ n ≤ limits.array := by
  obtain ⟨u, hu, -⟩ := reads_opening.sound h
  cases hu with
  | arguments _ hleast hgreatest => exact ⟨hleast, hgreatest⟩

theorem seek_within : ∀ x ∈ (seek limits b).draft, x.Within limits := by
  fun_induction seek limits b with
  | case1 b ho =>
    intro x hx
    cases hx
  | case2 b e ho =>
    intro x hx
    cases hx
  | case3 b rest ho ih => exact ih
  | case4 b n rest ho =>
    apply fill_within
    simpa using (count_of_opening ho).2
  | case5 b w ws rest ho =>
    intro x hx
    cases hx

theorem scan_within (h : ∀ x ∈ d, x.Within limits) : ∀ x ∈ (scan limits b d).draft, x.Within limits := by
  cases d with
  | none => exact seek_within
  | some x => exact fill_within (h x rfl).count_le

theorem opening_suffix {o : Opening} (h : opening limits b = .done o rest) : rest <:+ b := by
  obtain ⟨u, -, hu⟩ := reads_opening.sound h
  exact ⟨u, hu⟩

theorem seek_suffix : (seek limits b).rest <:+ b := by
  fun_induction seek limits b with
  | case1 b ho => exact List.suffix_rfl
  | case2 b e ho => exact List.suffix_rfl
  | case3 b rest ho ih => exact ih.trans (opening_suffix ho)
  | case4 b n rest ho => exact fill_suffix.trans (opening_suffix ho)
  | case5 b w ws rest ho => exact opening_suffix ho

theorem scan_suffix : (scan limits b d).rest <:+ b := by
  cases d with
  | none => exact seek_suffix
  | some x => exact fill_suffix

theorem scan_length (h : ∀ x ∈ d, x.Within limits) (hfound : (scan limits b d).found = .ok (some r)) :
    (scan limits b d).rest.length < b.length := by
  cases d with
  | none => exact seek_length hfound
  | some x =>
    have hmissing : 1 ≤ x.missing := (h x rfl).missing_pos
    rcases @fill_length limits x.missing x.args b with hlength | hnone
    · rw [scan]
      omega
    · exact absurd hfound (hnone r)

theorem fill_stays : (fill limits n args b).Stays limits := by
  induction n generalizing args b with
  | zero =>
    intro h
    exact absurd rfl (h _)
  | succ n ih =>
    rw [fill]
    cases ha : argument limits b with
    | more =>
      intro _
      simp only [scan, fill, ha]
    | fault e =>
      intro _
      simp only [scan, fill, ha]
    | done a rest => exact ih

theorem seek_stays : (seek limits b).Stays limits := by
  fun_induction seek limits b with
  | case1 b ho =>
    intro _
    rw [scan, seek_eq, ho]
  | case2 b e ho =>
    intro _
    rw [scan, seek_eq, ho]
  | case3 b rest ho ih => exact ih
  | case4 b n rest ho => exact fill_stays
  | case5 b w ws rest ho =>
    intro h
    exact absurd rfl (h _)

theorem scan_stays : (scan limits b d).Stays limits := by
  cases d with
  | none => exact seek_stays
  | some x => exact fill_stays

end Scans

def Decoding.last (x : Decoding) : Except DecodeError (Option Request) :=
  match x.fault with
  | none => .ok none
  | some e => .error e

theorem Decoding.last_ne (x : Decoding) (r : Request) : x.last ≠ .ok (some r) := by
  unfold last
  cases x.fault with
  | none => simp
  | some e => simp

namespace Decoder

inductive Call where
  | feed (data : Bytes)
  | next
  | reset

def answer (d : Decoder) : Call → Decoder
  | .feed data => d.feed data
  | .next => d.next.2
  | .reset => d.reset

def after (d : Decoder) (calls : List Call) : Decoder := calls.foldl answer d

def Consistent (d : Decoder) : Prop := ∀ x ∈ d.draft, x.Within d.limits

variable {d e : Decoder} {limits : Limits}

theorem consistent_fresh (limits : Limits) : ({ limits } : Decoder).Consistent := by
  intro x hx
  cases hx

theorem limits_answer (d : Decoder) (c : Call) : (d.answer c).limits = d.limits := by
  cases c <;> rfl

theorem Consistent.next (h : d.Consistent) : d.next.2.Consistent := scan_within h

theorem Consistent.answer (h : d.Consistent) (c : Call) : (d.answer c).Consistent := by
  cases c with
  | feed data => exact h
  | next => exact h.next
  | reset =>
    intro x hx
    cases hx

theorem limits_after (d : Decoder) (calls : List Call) : (d.after calls).limits = d.limits := by
  induction calls generalizing d with
  | nil => rfl
  | cons c calls ih => exact (ih (d.answer c)).trans (limits_answer d c)

theorem Consistent.after (h : d.Consistent) (calls : List Call) : (d.after calls).Consistent := by
  induction calls generalizing d with
  | nil => exact h
  | cons c calls ih => exact ih (h.answer c)

theorem Consistent.of_next {x : Except DecodeError (Option Request)} (h : d.Consistent) (hx : d.next = (x, e)) :
    e.Consistent := by
  have hnext := h.next
  rwa [hx] at hnext

theorem Consistent.length_lt (h : d.Consistent) {r : Request} (hr : d.next = (.ok (some r), e)) :
    e.buffer.length < d.buffer.length := by
  obtain ⟨hfound, -, hbuffer, -⟩ := scan_of_next hr
  rw [hbuffer]
  exact scan_length h hfound

theorem suffix_of_next {x : Except DecodeError (Option Request)} (h : d.next = (x, e)) : e.buffer <:+ d.buffer := by
  obtain ⟨-, -, hbuffer, -⟩ := scan_of_next h
  rw [hbuffer]
  exact scan_suffix

theorem next_again {x : Except DecodeError (Option Request)} (h : d.next = (x, e)) (hx : ∀ r, x ≠ .ok (some r)) :
    e.next = (x, e) := by
  obtain ⟨hfound, hlimits, hbuffer, hdraft⟩ := scan_of_next h
  have hstays : scan d.limits (scan d.limits d.buffer d.draft).rest (scan d.limits d.buffer d.draft).draft =
      scan d.limits d.buffer d.draft := by
    apply scan_stays
    rw [hfound]
    exact hx
  rw [← hbuffer, ← hdraft, ← hlimits] at hstays
  rw [Decoder.next, hstays, hlimits, hfound, ← hbuffer, ← hdraft, ← hlimits]

theorem nextRequests_drain (d : Decoder) :
    d.nextRequests (d.drain.requests.length + 1) =
      (d.drain.requests.map (fun r => .ok (some r)) ++ [d.drain.last], d.drain.decoder) := by
  fun_induction drain d with
  | case1 d f e hn => simp [nextRequests, hn, Decoding.last]
  | case2 d e hn => simp [nextRequests, hn, Decoding.last]
  | case3 d r e hn ih =>
    rw [Decoding.after_requests, List.singleton_append, List.length_cons, nextRequests, hn]
    dsimp only
    rw [ih]
    rfl

theorem Consistent.length_drain (h : d.Consistent) :
    d.drain.requests.length + d.drain.decoder.buffer.length ≤ d.buffer.length := by
  fun_induction drain d with
  | case1 d f e hn => simpa using (suffix_of_next hn).length_le
  | case2 d e hn => simpa using (suffix_of_next hn).length_le
  | case3 d r e hn ih =>
    have hrest := ih (h.of_next hn)
    have hlt : e.buffer.length < d.buffer.length := h.length_lt hn
    rw [Decoding.after_requests, List.singleton_append, List.length_cons]
    show e.drain.requests.length + 1 + e.drain.decoder.buffer.length ≤ d.buffer.length
    omega

/-- How a decoder stands between two calls: what it keeps of a request, what it takes off for one, how often it can
be asked before it gives none, and that it then gives none again. -/
structure Orderly (limits : Limits) (d : Decoder) : Prop where
  limits_eq : d.limits = limits
  draft : d.draft = none ∨ ∃ x, d.draft = some x ∧ x.Within limits
  takes : ∀ r e, d.next = (.ok (some r), e) → ∃ taken, taken ≠ [] ∧ taken ++ e.buffer = d.buffer
  ends : ∃ (rs : List Request) (last : Except DecodeError (Option Request)), rs.length ≤ d.buffer.length ∧
    (∀ r, last ≠ .ok (some r)) ∧ (d.nextRequests (rs.length + 1)).1 = rs.map (fun r => .ok (some r)) ++ [last]
  again : ∀ x e, d.next = (x, e) → (∀ r, x ≠ .ok (some r)) → e.next = (x, e)

/-- Whatever bytes are fed and however often a decoder is asked or reset in between, it stands so after each call. -/
theorem orderly_after (limits : Limits) (calls : List Call) : (({ limits } : Decoder).after calls).Orderly limits := by
  have hlimits : (({ limits } : Decoder).after calls).limits = limits := limits_after { limits } calls
  have hconsistent : (({ limits } : Decoder).after calls).Consistent := (consistent_fresh limits).after calls
  generalize ({ limits } : Decoder).after calls = d at hlimits hconsistent
  refine ⟨hlimits, ?_, ?_, ?_, fun x e h hx => next_again h hx⟩
  · rw [← hlimits]
    cases hd : d.draft with
    | none => exact .inl rfl
    | some x => exact .inr ⟨x, rfl, hconsistent x hd⟩
  · intro r e h
    have hlt : e.buffer.length < d.buffer.length := hconsistent.length_lt h
    obtain ⟨taken, htaken⟩ := suffix_of_next h
    refine ⟨taken, ?_, htaken⟩
    rintro rfl
    rw [← htaken, List.nil_append] at hlt
    exact Nat.lt_irrefl _ hlt
  · refine ⟨d.drain.requests, d.drain.last, ?_, d.drain.last_ne, ?_⟩
    · exact Nat.le_of_add_right_le hconsistent.length_drain
    · rw [nextRequests_drain]

end Decoder

end RespStore.Wire
