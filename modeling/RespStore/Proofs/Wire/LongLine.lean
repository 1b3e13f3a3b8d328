import RespStore.Proofs.Wire.Cuts

/-! Plain lines longer than the limit. Their length is looked at only while their end has not come, so whether such a
line is refused depends on where the pieces of the stream end: it is refused exactly if one ends inside the line, beyond
the limit. Pieces that are no longer than what the line has beyond the limit cannot miss it. -/

namespace RespStore.Wire

def lineRequests (l : Bytes) : List Request :=
  match Pieces.words isAsciiBlank l with
  | [] => []
  | w :: ws => [.ofParts (w :: ws)]

section Lines

variable {limits : Limits} {b l u v : Bytes}

theorem findIdx?_of_not_mem (h : lf ∉ l) : l.findIdx? (· = lf) = none := by
  refine List.findIdx?_eq_none_iff.mpr fun c hc => decide_eq_false ?_
  rintro rfl
  exact h hc

theorem inlineWords_unended (h : lf ∉ u) :
    inlineWords limits u = if limits.line < u.length then .fault (.protocol .inlineTooBig) else .more := by
  rw [inlineWords, findIdx?_of_not_mem h]

theorem inlineWords_ended (h : lf ∉ l) :
    inlineWords limits (l ++ lf :: v) = .done (Pieces.words isAsciiBlank l) v := by
  have hend : (l ++ lf :: v).findIdx? (· = lf) = some l.length := by
    rw [List.findIdx?_append, findIdx?_of_not_mem h]
    simp [List.findIdx?_cons]
  rw [inlineWords, hend]
  simp

theorem opening_of_plain (hb : b ≠ []) (hplain : b.head? ≠ some starMark) :
    opening limits b = (inlineWords limits).andThen (fun ws => .give (.ofWords ws)) b := by
  cases b with
  | nil => exact absurd rfl hb
  | cons t r =>
    have ht : t ≠ starMark := fun heq => hplain (congrArg some heq)
    rw [opening_cons, if_neg ht]

namespace Decoder

theorem next_feed (limits : Limits) (b : Bytes) :
    (({ limits } : Decoder).feed b).next =
      ((seek limits b).found, { limits, buffer := (seek limits b).rest, draft := (seek limits b).draft }) := rfl

theorem drain_beyond (hu : u ≠ []) (hlf : lf ∉ u) (hplain : u.head? ≠ some starMark)
    (h : limits.line < u.length) :
    (({ limits } : Decoder).feed u).drain =
      ⟨[], some (.protocol .inlineTooBig), ({ limits } : Decoder).feed u⟩ := by
  have hopening : opening limits u = .fault (.protocol .inlineTooBig) := by
    rw [opening_of_plain hu hplain, Reader.andThen, inlineWords_unended hlf, if_pos h]
  apply drain_of_error
  rw [next_feed, seek_eq, hopening]
  rfl

theorem drain_within (hu : u ≠ []) (hlf : lf ∉ u) (hplain : u.head? ≠ some starMark)
    (h : u.length ≤ limits.line) :
    (({ limits } : Decoder).feed u).drain = ⟨[], none, ({ limits } : Decoder).feed u⟩ := by
  have hopening : opening limits u = .more := by
    rw [opening_of_plain hu hplain, Reader.andThen, inlineWords_unended hlf, if_neg (Int.not_lt.mpr h)]
  apply drain_of_none
  rw [next_feed, seek_eq, hopening]
  rfl

theorem drain_line (hlf : lf ∉ l) (hplain : l.head? ≠ some starMark) :
    (({ limits } : Decoder).feed (l ++ lf :: v)).drain =
      (({ limits } : Decoder).feed v).drain.after (lineRequests l) := by
  have hhead : (l ++ lf :: v).head? ≠ some starMark := by
    cases l with
    | nil => exact fun heq => absurd (Option.some.inj heq) (by decide)
    | cons t r => exact hplain
  have hopening : opening limits (l ++ lf :: v) = .done (.ofWords (Pieces.words isAsciiBlank l)) v := by
    rw [opening_of_plain (by simp) hhead, Reader.andThen, inlineWords_ended hlf]
    rfl
  unfold lineRequests
  cases hwords : Pieces.words isAsciiBlank l with
  | nil =>
    have hnext : (({ limits } : Decoder).feed (l ++ lf :: v)).next = (({ limits } : Decoder).feed v).next := by
      rw [next_feed, seek_eq, hopening, hwords]
      rfl
    exact drain_congr hnext
  | cons w ws =>
    apply drain_of_found
    rw [next_feed, seek_eq, hopening, hwords]
    rfl

end Decoder

end Lines

/-- After some requests, and before the rest of a stream: a plain line longer than the limit, without its end. -/
structure LongLine (limits : Limits) (before : Bytes) (rs : List Request) (line : Bytes) : Prop where
  drain : (({ limits } : Decoder).feed before).drain = ⟨rs, none, { limits }⟩
  unended : lf ∉ line
  plain : line.head? ≠ some starMark
  long : limits.line < line.length

/-- Whether the first `n` bytes of a stream end inside the line that comes after `before`, beyond the limit. -/
structure Beyond (limits : Limits) (before line : Bytes) (n : Nat) : Prop where
  inside : before.length < n
  beyond : before.length + limits.line < n
  within : n ≤ before.length + line.length

def EndsBeyond (limits : Limits) (before line : Bytes) (cs : List Bytes) : Prop :=
  ∃ n, Beyond limits before line (cs.take n).flatten.length

/-- Nothing more than these requests, and an end because of a line that is too long. -/
structure Decoding.Refused (rs : List Request) (x : Decoding) : Prop where
  requests : x.requests = rs
  fault : x.fault = some (.protocol .inlineTooBig)

/-- After these requests the decoding is one of the rest of the stream, in some pieces. -/
def Decoding.GoesOn (limits : Limits) (rs : List Request) (rest : Bytes) (x : Decoding) : Prop :=
  ∃ ds : List Bytes, ds.flatten = rest ∧ x = (({ limits } : Decoder).decode ds).after rs

structure Judged (limits : Limits) (before : Bytes) (rs : List Request) (line rest : Bytes)
    (cs : List Bytes) : Prop where
  refused : EndsBeyond limits before line cs → (({ limits } : Decoder).decode cs).Refused rs
  taken : ¬EndsBeyond limits before line cs →
    (({ limits } : Decoder).decode cs).GoesOn limits (rs ++ lineRequests line) rest

variable {limits : Limits} {before line rest p c : Bytes} {rs : List Request} {cs : List Bytes}

theorem endsBeyond_cons_cons :
    EndsBeyond limits before line (p :: c :: cs) ↔
      Beyond limits before line p.length ∨ EndsBeyond limits before line ((p ++ c) :: cs) := by
  constructor
  · rintro ⟨n, h⟩
    match n with
    | 0 => exact absurd h.inside (Nat.not_lt_zero _)
    | 1 => exact .inl (by simpa using h)
    | n + 2 => exact .inr ⟨n + 1, by simpa using h⟩
  · rintro (h | ⟨n, h⟩)
    · exact ⟨1, by simpa using h⟩
    · match n with
      | 0 => exact absurd h.inside (Nat.not_lt_zero _)
      | n + 1 => exact ⟨n + 2, by simpa using h⟩

theorem not_endsBeyond_of_lt (hp : before.length + line.length < p.length) :
    ¬EndsBeyond limits before line (p :: cs) := by
  rintro ⟨n, h⟩
  match n with
  | 0 => exact absurd h.inside (Nat.not_lt_zero _)
  | n + 1 =>
    have hwithin := h.within
    rw [List.take_succ_cons, List.flatten_cons, List.length_append] at hwithin
    omega

theorem exists_end {m t : Nat} (hcs : ∀ c ∈ cs, c.length ≤ m) (ht : t < cs.flatten.length) :
    ∃ n, t < (cs.take n).flatten.length ∧ (cs.take n).flatten.length ≤ t + m := by
  induction cs generalizing t with
  | nil => exact absurd ht (Nat.not_lt_zero t)
  | cons c cs ih =>
    have hc : c.length ≤ m := hcs c List.mem_cons_self
    rw [List.flatten_cons, List.length_append] at ht
    by_cases hlt : t < c.length
    · exact ⟨1, by simpa using hlt, by simp; omega⟩
    · obtain ⟨n, hlow, hhigh⟩ := @ih (t - c.length) (fun d hd => hcs d (List.mem_cons_of_mem c hd)) (by omega)
      refine ⟨n + 1, ?_, ?_⟩ <;> rw [List.take_succ_cons, List.flatten_cons, List.length_append] <;> omega

namespace LongLine

theorem drain_through (h : LongLine limits before rs line) (x : Bytes) :
    (({ limits } : Decoder).feed (before ++ x)).drain = (({ limits } : Decoder).feed x).drain.after rs := by
  have hnone : (({ limits } : Decoder).feed before).drain.fault = none := by rw [h.drain]
  rw [← Decoder.feed_feed, Decoder.drain_feed_of_none hnone, h.drain]

theorem drain_first (h : LongLine limits before rs line) {u : Bytes} (hu : u <+: line) (hne : u ≠ []) :
    (limits.line < u.length → (({ limits } : Decoder).feed (before ++ u)).drain.Refused rs) ∧
      (u.length ≤ limits.line → (({ limits } : Decoder).feed (before ++ u)).drain.fault = none) := by
  have hlf : lf ∉ u := fun hmem => h.unended (hu.subset hmem)
  have hplain : u.head? ≠ some starMark := by
    obtain ⟨v, rfl⟩ := hu
    cases u with
    | nil => exact absurd rfl hne
    | cons t r => exact h.plain
  rw [h.drain_through]
  constructor
  · intro hlong
    rw [Decoder.drain_beyond hne hlf hplain hlong]
    exact ⟨List.append_nil rs, rfl⟩
  · intro hshort
    rw [Decoder.drain_within hne hlf hplain hshort]
    rfl

theorem judged_of_past (h : LongLine limits before rs line) (hcs : p ++ cs.flatten = before ++ line ++ lf :: rest)
    (hp : before.length + line.length < p.length) : Judged limits before rs line rest (p :: cs) := by
  refine ⟨fun hends => absurd hends (not_endsBeyond_of_lt hp), fun _ => ?_⟩
  have hprefix : before ++ line ++ [lf] <+: p := by
    refine List.prefix_of_prefix_length_le ⟨rest, ?_⟩ ⟨cs.flatten, hcs⟩ ?_
    · simp
    · simp only [List.length_append, List.length_singleton]
      omega
  obtain ⟨v, rfl⟩ := hprefix
  have hrest : v ++ cs.flatten = rest := by simpa using hcs
  have hdrain : (({ limits } : Decoder).feed (before ++ line ++ [lf] ++ v)).drain =
      (({ limits } : Decoder).feed v).drain.after (rs ++ lineRequests line) := by
    have hsplit : before ++ line ++ [lf] ++ v = before ++ (line ++ lf :: v) := by simp
    rw [hsplit, h.drain_through, Decoder.drain_line h.unended h.plain, Decoding.after_after]
  exact ⟨v :: cs, hrest, Decoder.decode_cons_of_drain hdrain cs⟩

theorem judged_cons_cons (hnone : (({ limits } : Decoder).feed p).drain.fault = none)
    (hp : ¬Beyond limits before line p.length) (h : Judged limits before rs line rest ((p ++ c) :: cs)) :
    Judged limits before rs line rest (p :: c :: cs) := by
  constructor
  · rw [Decoder.decode_cons_cons hnone, endsBeyond_cons_cons, or_iff_right hp]
    exact h.refused
  · rw [Decoder.decode_cons_cons hnone, endsBeyond_cons_cons, or_iff_right hp]
    exact h.taken

theorem refused_or_joined (h : LongLine limits before rs line) (hp : p <+: before ++ line)
    (hreach : p <+: before → (({ limits } : Decoder).feed p).drain.fault = none) :
    (Beyond limits before line p.length ∧ (({ limits } : Decoder).feed p).drain.Refused rs) ∨
      (¬Beyond limits before line p.length ∧ (({ limits } : Decoder).feed p).drain.fault = none) := by
  have hlength : p.length ≤ before.length + line.length := by simpa using hp.length_le
  by_cases hpb : p.length ≤ before.length
  · have hprefix : p <+: before := List.prefix_of_prefix_length_le hp (List.prefix_append _ _) hpb
    exact .inr ⟨fun hbeyond => absurd hbeyond.inside (Nat.not_lt.mpr hpb), hreach hprefix⟩
  · obtain ⟨u, rfl⟩ : before <+: p := List.prefix_of_prefix_length_le (List.prefix_append _ _) hp (by omega)
    have hu : u <+: line := (List.prefix_append_right_inj before).mp hp
    have hne : u ≠ [] := by
      rintro rfl
      simp at hpb
    obtain ⟨hrefused, hnone⟩ := h.drain_first hu hne
    rw [List.length_append] at hpb hlength ⊢
    rcases Int.lt_or_le limits.line u.length with hlong | hshort
    · exact .inl ⟨⟨by omega, by omega, hlength⟩, hrefused hlong⟩
    · refine .inr ⟨fun hbeyond => ?_, hnone hshort⟩
      have hlimit := hbeyond.beyond
      omega

theorem judged_pieces (h : LongLine limits before rs line) (hcs : p ++ cs.flatten = before ++ line ++ lf :: rest)
    (hreach : ∀ n, ((p :: cs).take n).flatten <+: before →
      (({ limits } : Decoder).feed ((p :: cs).take n).flatten).drain.fault = none) :
    Judged limits before rs line rest (p :: cs) := by
  -- While the first piece has not come to the end of the line, the next one is joined to it.
  induction cs generalizing p with
  | nil =>
    have hlength : p.length = before.length + line.length + (rest.length + 1) := by
      simpa [Nat.add_assoc] using congrArg List.length hcs
    exact h.judged_of_past hcs (by omega)
  | cons c cs ih =>
    by_cases hpast : before.length + line.length < p.length
    · exact h.judged_of_past hcs hpast
    have hp : p <+: before ++ line :=
      List.prefix_of_prefix_length_le ⟨_, hcs⟩ ⟨lf :: rest, rfl⟩ (by rw [List.length_append]; omega)
    have hfirst : p <+: before → (({ limits } : Decoder).feed p).drain.fault = none := by simpa using hreach 1
    rcases h.refused_or_joined hp hfirst with ⟨hbeyond, hrefused⟩ | ⟨hbeyond, hnone⟩
    · have hends : EndsBeyond limits before line (p :: c :: cs) := endsBeyond_cons_cons.mpr (.inl hbeyond)
      refine ⟨fun _ => ?_, fun hnot => absurd hends hnot⟩
      rw [Decoder.decode_cons_of_some hrefused.fault]
      exact hrefused
    · refine judged_cons_cons hnone hbeyond (ih (by simpa using hcs) fun n hn => ?_)
      match n with
      | 0 => exact congrArg Decoding.fault (Decoder.drain_of_none (Decoder.next_fresh limits))
      | n + 1 => simpa using hreach (n + 2) (by simpa using hn)

theorem endsBeyond_of_short (hcs : cs.flatten = before ++ line ++ lf :: rest) {m : Nat}
    (hm : ∀ c ∈ cs, c.length ≤ m) (hline : limits.line.toNat + m ≤ line.length) :
    EndsBeyond limits before line cs := by
  have hlength : before.length + limits.line.toNat < cs.flatten.length := by
    rw [hcs, List.length_append, List.length_append, List.length_cons]
    omega
  obtain ⟨n, hlow, hhigh⟩ := exists_end hm hlength
  exact ⟨n, by omega, by omega, by omega⟩

/-- A line that is too long, with requests before it, is refused if a piece ends inside it and beyond the limit, and
taken like any other line if none does; pieces no longer than what the line has beyond the limit never let it pass. -/
theorem judged_by_pieces (h : LongLine limits before rs line) (hcs : cs.flatten = before ++ line ++ lf :: rest)
    (hreach : ∀ n, (cs.take n).flatten <+: before → (({ limits } : Decoder).decode (cs.take n)).fault = none) :
    Judged limits before rs line rest cs ∧
      ∀ m, (∀ c ∈ cs, c.length ≤ m) → limits.line.toNat + m ≤ line.length →
        (({ limits } : Decoder).decode cs).Refused rs := by
  have hdrain : ∀ n, (cs.take n).flatten <+: before →
      (({ limits } : Decoder).feed (cs.take n).flatten).drain.fault = none := by
    intro n hn
    have hdecode := hreach n hn
    have hagrees := Decoder.decode_agrees (Decoder.next_fresh limits) (by rw [Decoding.isTooBig, hdecode]; rfl)
    exact hagrees.fault.symm.trans hdecode
  have hjudged : Judged limits before rs line rest cs := by
    cases cs with
    | nil => simp at hcs
    | cons p cs => exact h.judged_pieces hcs hdrain
  exact ⟨hjudged, fun m hm hline => hjudged.refused (endsBeyond_of_short hcs hm hline)⟩

theorem reached_of_first (hp : ¬p <+: before) (n : Nat) (hn : ((p :: cs).take n).flatten <+: before) :
    (({ limits } : Decoder).decode ((p :: cs).take n)).fault = none := by
  cases n with
  | zero => rfl
  | succ n => exact absurd ((List.prefix_append p (cs.take n).flatten).trans hn) hp

def brokenEcho : List Bytes := [.ofString "PING\r\nECHO a", .ofString "bcdef\nGET k\n"]

def wholeEcho : List Bytes := [.ofString "PING\r\nECHO", .ofString " abcdef\nGET k\n"]

theorem longLine_echo :
    LongLine { line := 4 } (.ofString "PING\r\n") [⟨.ofString "PING", []⟩] (.ofString "ECHO abcdef") := by
  refine ⟨?_, by decide +kernel, by decide +kernel, by decide +kernel⟩
  have hping : (.ofString "PING\r\n" : Bytes) = .ofString "PING\r" ++ lf :: [] := by decide +kernel
  have hrequests : lineRequests (.ofString "PING\r") = [⟨.ofString "PING", []⟩] := by decide +kernel
  rw [hping, Decoder.drain_line (by decide +kernel) (by decide +kernel), Decoder.feed_nil,
    Decoder.drain_of_none (Decoder.next_fresh _), hrequests]
  rfl

theorem judged_by_pieces_echo :
    (({ limits := { line := 4 } } : Decoder).decode brokenEcho).Refused [⟨.ofString "PING", []⟩] ∧
      (({ limits := { line := 4 } } : Decoder).decode wholeEcho).GoesOn { line := 4 }
        ([⟨.ofString "PING", []⟩] ++ lineRequests (.ofString "ECHO abcdef")) (.ofString "GET k\n") := by
  have hbroken : ¬Bytes.ofString "PING\r\nECHO a" <+: Bytes.ofString "PING\r\n" := by decide +kernel
  have hwhole : ¬Bytes.ofString "PING\r\nECHO" <+: Bytes.ofString "PING\r\n" := by decide +kernel
  have hstream : brokenEcho.flatten =
      Bytes.ofString "PING\r\n" ++ Bytes.ofString "ECHO abcdef" ++ lf :: Bytes.ofString "GET k\n" := by decide +kernel
  constructor
  · refine (judged_by_pieces longLine_echo hstream (reached_of_first hbroken)).1.refused ⟨1, ?_⟩
    exact ⟨by decide +kernel, by decide +kernel, by decide +kernel⟩
  · refine (judged_by_pieces longLine_echo (by decide +kernel) (reached_of_first hwhole)).1.taken ?_
    rintro ⟨n, hn⟩
    match n with
    | 0 => exact absurd hn.inside (by decide +kernel)
    | 1 => exact absurd hn.beyond (by decide +kernel)
    | n + 2 =>
      rw [List.take_of_length_le (Nat.le_add_left 2 n)] at hn
      exact absurd hn.within (by decide +kernel)

end LongLine

/-- A line of seven bytes under a limit of four: it is taken when it comes with its end. -/
theorem longLine_passed :
    LongLine { line := 4 } [] [] (.ofString "PING ab") ∧
      (({ limits := { line := 4 } } : Decoder).decode [.ofString "PING ab\n"]).requests =
        [⟨.ofString "PING", [.ofString "ab"]⟩] ∧
      (({ limits := { line := 4 } } : Decoder).decode [.ofString "PING ab\n"]).fault = none ∧
      (({ limits := { line := 4 } } : Decoder).decode [.ofString "PING ab", .ofString "\n"]).fault =
        some (.protocol .inlineTooBig) := by
  refine ⟨⟨?_, by decide +kernel, by decide +kernel, by decide +kernel⟩, by decide +kernel, by decide +kernel,
    by decide +kernel⟩
  rw [Decoder.feed_nil]
  exact Decoder.drain_of_none (Decoder.next_fresh _)

end RespStore.Wire
