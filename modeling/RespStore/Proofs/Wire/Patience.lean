import RespStore.Proofs.Wire.Pipeline

/-! Readers that wait. As long as the last byte of a request or a reply is missing, its reader asks for more; it does
not take the beginning of a line for a line too long. -/

namespace RespStore

open Wire

/-- A reply that can be read within the limits: no array of too many items, no status and no error in a line too
long, and no number of more digits than are ever read. -/
inductive Reply.Fits (limits : Limits) : Reply → Prop
  | status {t : Text} (hl : (oneLine t).toBytes.length < limits.line) : Fits limits (.status t)
  | error {t : Text} (hl : (oneLine t).toBytes.length < limits.line) : Fits limits (.error t)
  | integer {n : Int} (hn : n.natAbs < 10 ^ Numeral.maxDigits) : Fits limits (.integer n)
  | bulk (data : Bytes) : Fits limits (.bulk data)
  | null : Fits limits .null
  | array {items : List Reply} (hl : items.length ≤ limits.array) (hi : ∀ r ∈ items, Fits limits r) :
    Fits limits (.array items)

/-- Every line of a reply that is looked for its end, the lines that say how much follows included, is shorter than
the limit. -/
inductive Reply.ShortLined (limits : Limits) : Reply → Prop
  | status {t : Text} (hl : (oneLine t).toBytes.length < limits.line) : ShortLined limits (.status t)
  | error {t : Text} (hl : (oneLine t).toBytes.length < limits.line) : ShortLined limits (.error t)
  | integer {n : Int} (hl : (Numeral.ofInt n).length < limits.line) : ShortLined limits (.integer n)
  | bulk {data : Bytes} (hl : (Numeral.ofNat data.length).length < limits.line) : ShortLined limits (.bulk data)
  | null (hl : (Numeral.ofInt (-1)).length < limits.line) : ShortLined limits .null
  | array {items : List Reply} (hl : (Numeral.ofNat items.length).length < limits.line)
    (hi : ∀ r ∈ items, ShortLined limits r) : ShortLined limits (.array items)

/-- Has only such byte strings for bulks, and texts that bytes are read as. -/
inductive Reply.Made (Q : Bytes → Prop) : Reply → Prop
  | status {t : Text} (ht : t.IsDecoded) : Made Q (.status t)
  | error {t : Text} (ht : t.IsDecoded) : Made Q (.error t)
  | integer (n : Int) : Made Q (.integer n)
  | bulk {data : Bytes} (hd : Q data) : Made Q (.bulk data)
  | null : Made Q .null
  | array {items : List Reply} (hi : ∀ r ∈ items, Made Q r) : Made Q (.array items)

namespace Wire

namespace Reader

variable {α β : Type} {r : Reader α} {f : α → Reader β} {a : α} {b c : Bytes}

def Waits (r : Reader α) (b : Bytes) : Prop := ∀ p, p <+: b → p ≠ b → r p = .more

theorem waits_nil : r.Waits [] := by
  intro p hp hne
  exact absurd (List.prefix_nil.mp hp) hne

theorem broken_append {p : Bytes} (hp : p <+: b ++ c) (hne : p ≠ b ++ c) :
    (p <+: b ∧ p ≠ b) ∨ ∃ q, p = b ++ q ∧ q <+: c ∧ q ≠ c := by
  rcases List.prefix_or_prefix_of_prefix hp (List.prefix_append b c) with hb | ⟨q, rfl⟩
  · by_cases heq : p = b
    · refine .inr ⟨[], by rw [heq, List.append_nil], List.nil_prefix, fun hc => hne ?_⟩
      rw [heq, ← hc, List.append_nil]
    · exact .inl ⟨hb, heq⟩
  · exact .inr ⟨q, rfl, (List.prefix_append_right_inj b).mp hp, fun hc => hne (hc ▸ rfl)⟩

theorem Waits.andThen (hr : r.Waits b) (hb : ∀ rest, r (b ++ rest) = .done a rest) (hf : (f a).Waits c) :
    (r.andThen f).Waits (b ++ c) := by
  intro p hp hne
  rw [Reader.andThen]
  rcases broken_append hp hne with ⟨hpb, hneb⟩ | ⟨q, rfl, hq, hneq⟩
  · rw [hr p hpb hneb]
  · rw [hb q]
    exact hf q hq hneq

end Reader

open Reader

variable {limits : Limits}

theorem line_waits {l : Bytes} (hcr : cr ∉ l) (hl : l.length < limits.line) : (line limits).Waits (l ++ crlf) := by
  intro p hp hne
  have hnone : lineEndFrom 0 p = none := by
    cases hi : lineEndFrom 0 p with
    | none => rfl
    | some i =>
      -- The end that is found would be the end of the line, and then nothing is missing.
      obtain ⟨q, hq⟩ := hp
      have hfull : lineEndFrom 0 (p ++ q) = some i := lineEndFrom_append hi q
      have hend : lineEndFrom 0 (l ++ (crlf ++ [])) = some (0 + l.length) := lineEndFrom_of_not_mem hcr 0 []
      rw [List.append_nil, ← hq, hfull] at hend
      have hi' : i = l.length := by simpa using hend
      have hlt : i + 2 ≤ 0 + p.length := lineEndFrom_lt hi
      have hlength : p.length + q.length = l.length + 2 := by
        rw [← List.length_append, hq, List.length_append]
        rfl
      have hq0 : q = [] := List.length_eq_zero_iff.mp (by omega)
      rw [hq0, List.append_nil] at hq
      exact absurd hq hne
  have hshort : p.length < l.length + 2 := by
    have hle : p.length ≤ (l ++ crlf).length := hp.length_le
    have hlt : p.length ≠ (l ++ crlf).length := fun h => hne (hp.eq_of_length h)
    have hwhole : (l ++ crlf).length = l.length + 2 := List.length_append
    omega
  unfold line
  rw [hnone]
  dsimp only
  rw [if_neg (by omega)]

theorem body_waits (data : Bytes) : (body data.length).Waits (data ++ crlf) := by
  intro p hp hne
  have hle : p.length ≤ (data ++ crlf).length := hp.length_le
  have hlt : p.length ≠ (data ++ crlf).length := fun h => hne (hp.eq_of_length h)
  have hwhole : (data ++ crlf).length = data.length + 2 := List.length_append
  have hdrop : (p.drop data.length).length < 2 := by
    rw [List.length_drop]
    omega
  unfold body
  match hd : p.drop data.length, hdrop with
  | [], _ => rfl
  | [_], _ => rfl

theorem length_ofInt_le {n : Int} (hn : Numeral.Readable n.natAbs) :
    (Numeral.ofInt n).length ≤ Numeral.maxDigits + 1 := by
  cases n with
  | ofNat n => exact Nat.le_succ_of_le hn
  | negSucc n => exact Nat.succ_le_succ hn

theorem numbered_waits {α : Type} {f : Int → Reader α} {n : Int} {c : Bytes} (bad : ProtocolFault)
    (hl : Numeral.maxDigits + 1 < limits.line) (hn : Numeral.Readable n.natAbs) (hf : (f n).Waits c) :
    ((number limits bad).andThen f).Waits (Numeral.ofInt n ++ crlf ++ c) := by
  have hlength : (Numeral.ofInt n).length ≤ Numeral.maxDigits + 1 := length_ofInt_le hn
  have hcr : cr ∉ Numeral.ofInt n := cr_not_mem_ofInt n
  have hline : (line limits).Waits (Numeral.ofInt n ++ crlf) := line_waits hcr (by omega)
  have hnumber : (number limits bad).Waits (Numeral.ofInt n ++ crlf ++ []) :=
    hline.andThen (line_of_not_mem limits hcr) waits_nil
  rw [List.append_nil] at hnumber
  refine hnumber.andThen (fun rest => ?_) hf
  rw [number, Reader.andThen, line_of_not_mem limits hcr]
  exact numeral_ofInt bad hn rest

theorem waits_cons {α : Type} {f : UInt8 → Reader α} {t : UInt8} {r : Bytes} (hf : (f t).Waits r) :
    Reader.Waits (fun b => match b with
      | [] => .more
      | t :: r => f t r) (t :: r) := by
  intro p hp hne
  cases p with
  | nil => rfl
  | cons t' p =>
    obtain ⟨rfl, hp'⟩ := List.cons_prefix_cons.mp hp
    exact hf p hp' fun h => hne (h ▸ rfl)

section Requests

variable (hlimit : Numeral.maxDigits + 1 < limits.line)

include hlimit

theorem argument_waits {data : Bytes} (hl : data.length ≤ limits.bulk)
    (hn : data.length < 10 ^ Numeral.maxDigits) : (argument limits).Waits (bulkOf data) := by
  have hbody : (argumentBody limits data.length).Waits (data ++ crlf) := by
    rw [argumentBody, if_neg (by omega)]
    exact body_waits data
  have hlength : ((number limits .bulkLength).andThen (argumentBody limits)).Waits
      (Numeral.ofInt data.length ++ crlf ++ (data ++ crlf)) :=
    numbered_waits .bulkLength hlimit (Numeral.readable_iff.mpr hn) hbody
  have hsplit : bulkOf data = bulkMark :: (Numeral.ofInt data.length ++ crlf ++ (data ++ crlf)) := by
    show lineOf bulkMark (Numeral.ofInt data.length) ++ data ++ crlf = _
    rw [lineOf, List.append_assoc]
    rfl
  rw [hsplit]
  exact waits_cons hlength

theorem opening_waits {n : Nat} (hn : n < 10 ^ Numeral.maxDigits) : (opening limits).Waits (arrayHeader n) := by
  have hcount : ((number limits .multibulkLength).andThen (openingOfCount limits)).Waits
      (Numeral.ofInt n ++ crlf ++ []) :=
    numbered_waits .multibulkLength hlimit (Numeral.readable_iff.mpr hn) waits_nil
  rw [List.append_nil] at hcount
  intro p hp hne
  cases p with
  | nil => rfl
  | cons t p =>
    obtain ⟨rfl, hp'⟩ := List.cons_prefix_cons.mp hp
    rw [opening_cons, if_pos rfl]
    exact hcount p hp' fun h => hne (h ▸ rfl)

theorem fill_waits {parts : List Bytes}
    (hl : ∀ data ∈ parts, data.length ≤ limits.bulk ∧ data.length < 10 ^ Numeral.maxDigits)
    (args : List Bytes) {p : Bytes} (hp : p <+: Reply.listToBytes (parts.map .bulk))
    (hne : p ≠ Reply.listToBytes (parts.map .bulk)) : (fill limits parts.length args p).found = .ok none := by
  induction parts generalizing args p with
  | nil => exact absurd (List.prefix_nil.mp hp) hne
  | cons data parts ih =>
    obtain ⟨hd, hn⟩ := hl data List.mem_cons_self
    rw [List.length_cons, fill]
    rcases broken_append hp hne with ⟨hpb, hneb⟩ | ⟨q, rfl, hq, hneq⟩
    · rw [argument_waits hlimit hd hn p hpb hneb]
    · rw [Reply.toBytes, argument_bulkOf hd hn]
      exact ih (fun x hx => hl x (List.mem_cons_of_mem data hx)) (data :: args) hq hneq

theorem next_of_broken {parts : List Part} (h : Request.Encodable limits parts) {p : Bytes}
    (hp : p <+: Request.encodeParts parts) (hne : p ≠ Request.encodeParts parts) :
    (({ limits } : Decoder).feed p).next.1 = .ok none := by
  have hlength : (parts.map Part.toBytes).length = parts.length := List.length_map _
  have hpos : 0 < parts.length := List.length_pos_iff.mpr h.ne_nil
  have hbulks : ∀ data ∈ parts.map Part.toBytes,
      data.length ≤ limits.bulk ∧ data.length < 10 ^ Numeral.maxDigits := by
    intro data hdata
    obtain ⟨x, hx, rfl⟩ := List.mem_map.mp hdata
    exact ⟨h.length_le x hx, h.length_lt x hx⟩
  have hwhole : Request.encodeParts parts =
      arrayHeader parts.length ++ Reply.listToBytes ((parts.map Part.toBytes).map .bulk) := by
    rw [Request.encodeParts, Request.encode, Reply.toBytes, List.length_map, hlength]
  have hseek : (seek limits p).found = .ok none := by
    rw [hwhole] at hp hne
    rw [seek_eq]
    rcases broken_append hp hne with ⟨hpb, hneb⟩ | ⟨q, rfl, hq, hneq⟩
    · rw [opening_waits hlimit h.count_lt p hpb hneb]
    · rw [opening_arrayHeader hpos h.count_le h.count_lt]
      have hfill := fill_waits hlimit hbulks [] hq hneq
      rw [hlength] at hfill
      exact hfill
  rw [Decoder.next, Decoder.feed]
  exact hseek

end Requests

section Replies

theorem head_waits {mark : UInt8} {l c : Bytes} (hcr : cr ∉ l) (hl : l.length < limits.line)
    (hrest : (headOfLine limits mark l).Waits c) : (head limits).Waits (lineOf mark l ++ c) := by
  have hline : ((line limits).andThen (headOfLine limits mark)).Waits (l ++ crlf ++ c) :=
    (line_waits hcr hl).andThen (line_of_not_mem limits hcr) hrest
  exact waits_cons hline

theorem head_waits_nil {mark : UInt8} {l : Bytes} (hcr : cr ∉ l) (hl : l.length < limits.line) :
    (head limits).Waits (lineOf mark l) := by
  have hline : (head limits).Waits (lineOf mark l ++ []) := head_waits hcr hl waits_nil
  rwa [List.append_nil] at hline

theorem replyWithin_of_head_more {frames : List Frame} {p : Bytes} (h : head limits p = .more) :
    replyWithin limits frames p = .more := by
  rw [replyWithin_eq, h]

theorem replyWithin_items_waits {r : Reply} {rs : List Reply} (hs : ∀ x ∈ r :: rs, x.Sendable limits)
    (h : ∀ x ∈ r :: rs, ∀ frames, Reader.Waits (replyWithin limits frames) x.toBytes)
    (done : List Reply) (frames : List Frame) :
    Reader.Waits (replyWithin limits (⟨(r :: rs).length, done⟩ :: frames)) (Reply.listToBytes (r :: rs)) := by
  induction rs generalizing r done with
  | nil =>
    rw [Reply.listToBytes, Reply.listToBytes, List.append_nil]
    exact h r List.mem_cons_self _
  | cons r' rs ih =>
    intro p hp hne
    rcases broken_append hp hne with ⟨hpb, hneb⟩ | ⟨q, rfl, hq, hneq⟩
    · exact h r List.mem_cons_self _ p hpb hneb
    · rw [replyWithin_toBytes limits (hs r List.mem_cons_self)]
      show resume limits (settle r.received (⟨rs.length + 2, done⟩ :: frames)) q = _
      rw [settle_of_lt]
      exact ih (fun x hx => hs x (List.mem_cons_of_mem r hx)) (fun x hx => h x (List.mem_cons_of_mem r hx))
        (r.received :: done) q hq hneq

theorem head_waits_bulkOf {data : Bytes} (hl : data.length ≤ limits.bulk) (hn : Numeral.Readable data.length)
    (hline : (Numeral.ofNat data.length).length < limits.line) : (head limits).Waits (bulkOf data) := by
  have hbody : (bulkHead limits data.length).Waits (data ++ crlf ++ []) := by
    rw [bulkHead, if_neg (by omega), if_neg (by omega)]
    exact (body_waits data).andThen (body_append data) waits_nil
  have hrest : (headOfLine limits bulkMark (Numeral.ofNat data.length)).Waits ([] ++ (data ++ crlf ++ [])) :=
    Waits.andThen waits_nil (numeral_ofNat .bulkLength hn) hbody
  have hhead := head_waits (cr_not_mem_ofNat data.length) hline hrest
  rw [List.append_nil, List.nil_append, ← List.append_assoc] at hhead
  exact hhead

theorem replyWithin_waits {r : Reply} (hr : r.Sendable limits) (hl : r.ShortLined limits) (frames : List Frame) :
    Reader.Waits (replyWithin limits frames) r.toBytes := by
  induction hr generalizing frames with
  | @status t ht =>
    cases hl with
    | status hl => exact fun p hp hne => replyWithin_of_head_more (head_waits_nil (cr_not_mem_oneLine ht) hl p hp hne)
  | @error t ht =>
    cases hl with
    | error hl => exact fun p hp hne => replyWithin_of_head_more (head_waits_nil (cr_not_mem_oneLine ht) hl p hp hne)
  | @integer n hn =>
    cases hl with
    | integer hl => exact fun p hp hne => replyWithin_of_head_more (head_waits_nil (cr_not_mem_ofInt n) hl p hp hne)
  | @bulk data hd hn =>
    cases hl with
    | bulk hl => exact fun p hp hne => replyWithin_of_head_more (head_waits_bulkOf hd hn hl p hp hne)
  | null =>
    cases hl with
    | null hl => exact fun p hp hne => replyWithin_of_head_more (head_waits_nil (cr_not_mem_ofInt (-1)) hl p hp hne)
  | @array items hc hn hi ih =>
    cases hl with
    | array hl hlines =>
      intro p hp hne
      rw [Reply.toBytes] at hp hne
      rcases broken_append hp hne with ⟨hpb, hneb⟩ | ⟨q, rfl, hq, hneq⟩
      · exact replyWithin_of_head_more (head_waits_nil (cr_not_mem_ofNat items.length) hl p hpb hneb)
      · cases items with
        | nil => exact absurd (List.prefix_nil.mp hq) hneq
        | cons r rs =>
          rw [replyWithin_eq, head_array limits hc hn, if_neg (List.cons_ne_nil r rs)]
          exact replyWithin_items_waits hi (fun x hx => ih x hx (hlines x hx)) [] frames q hq hneq

theorem shortLined_of_fits (hlimit : Numeral.maxDigits + 1 < limits.line) {r : Reply} (hr : r.Sendable limits)
    (hf : r.Fits limits) : r.ShortLined limits := by
  have hnumeral : ∀ n : Int, Numeral.Readable n.natAbs → (Numeral.ofInt n).length < limits.line := by
    intro n hn
    have hlength : (Numeral.ofInt n).length ≤ Numeral.maxDigits + 1 := length_ofInt_le hn
    omega
  induction hr with
  | status =>
    cases hf with
    | status hl => exact .status hl
  | error =>
    cases hf with
    | error hl => exact .error hl
  | @integer n hn => exact .integer (hnumeral n hn)
  | @bulk data hd hn => exact .bulk (hnumeral data.length hn)
  | null => exact .null (hnumeral (-1) (by decide +kernel))
  | @array items hc hn hi ih =>
    cases hf with
    | array _ hfits => exact .array (hnumeral items.length hn) fun x hx => ih x hx (hfits x hx)

theorem nextReply_of_broken {r : Reply} (hr : r.Sendable limits) (hl : r.ShortLined limits) {p : Bytes}
    (hp : p <+: r.toBytes) (hne : p ≠ r.toBytes) :
    (({ limits } : Decoder).feed p).nextReply = (.ok none, ({ limits } : Decoder).feed p) := by
  have hmore : reply limits ([] ++ p) = .more := replyWithin_waits hr hl [] p hp hne
  rw [Decoder.nextReply, Decoder.feed]
  dsimp only
  rw [hmore]

end Replies

end Wire

end RespStore
