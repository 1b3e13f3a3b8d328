import RespStore.Proofs.Number.Numeral
import RespStore.Proofs.Text.Utf8
import RespStore.Proofs.Wire.SteadyReply

/-! Replies sent and received. Whatever a reply is made of, its bytes are read back as that reply, its texts
as the line that stands for them, and what follows is left alone. -/

namespace RespStore

open Wire

def Text.received (t : Text) : Text := .ofBytesReplacing (oneLine t).toBytes

mutual

def Reply.received : Reply → Reply
  | .status t => .status t.received
  | .error t => .error t.received
  | .integer n => .integer n
  | .bulk data => .bulk data
  | .null => .null
  | .array items => .array (Reply.listReceived items)

def Reply.listReceived : List Reply → List Reply
  | [] => []
  | r :: rs => r.received :: Reply.listReceived rs

end

theorem Reply.listReceived_eq (rs : List Reply) : Reply.listReceived rs = rs.map Reply.received := by
  induction rs with
  | nil => rfl
  | cons r rs ih => rw [Reply.listReceived, ih, List.map_cons]

/-- A reply whose bulks and arrays are within the limits, and whose numerals are short enough to be read;
a length that no machine holds would not be. -/
inductive Reply.Sendable (limits : Limits) : Reply → Prop
  | status {t : Text} (ht : t.IsDecoded) : Sendable limits (.status t)
  | error {t : Text} (ht : t.IsDecoded) : Sendable limits (.error t)
  | integer {n : Int} (hn : Numeral.Readable n.natAbs) : Sendable limits (.integer n)
  | bulk {data : Bytes} (hl : data.length ≤ limits.bulk) (hn : Numeral.Readable data.length) :
    Sendable limits (.bulk data)
  | null : Sendable limits .null
  | array {items : List Reply} (hl : items.length ≤ limits.array)
    (hn : Numeral.Readable items.length) (hi : ∀ r ∈ items, Sendable limits r) :
    Sendable limits (.array items)

namespace Wire

theorem cr_not_mem_oneLine {t : Text} (ht : t.IsDecoded) : cr ∉ (oneLine t).toBytes := by
  intro h
  obtain ⟨g, hg, h⟩ := List.mem_flatMap.mp h
  obtain ⟨g', hg', rfl⟩ := List.mem_map.mp hg
  cases g' with
  | stray b =>
    obtain rfl := List.mem_singleton.mp h
    exact absurd (ht cr hg') (by decide)
  | char c =>
    unfold flatten at h
    dsimp only at h
    split at h
    · have hn : ' '.toNat = cr.toNat := Utf8.toNat_of_mem_encodeChar h (by decide)
      exact absurd hn (by decide)
    · rename_i hc
      have hn : c.toNat = cr.toNat := Utf8.toNat_of_mem_encodeChar h (by decide)
      exact hc (.inl (Char.toNat_inj.mp hn))

theorem cr_not_mem_ofInt (n : Int) : cr ∉ Numeral.ofInt n := by
  intro h
  rcases Numeral.mem_ofInt h with h | h
  · exact absurd h (by decide)
  · exact absurd h (by decide)

theorem cr_not_mem_ofNat (n : Nat) : cr ∉ Numeral.ofNat n := cr_not_mem_ofInt n

theorem lineEndFrom_of_not_mem {l : Bytes} (h : cr ∉ l) (i : Nat) (rest : Bytes) :
    lineEndFrom i (l ++ (crlf ++ rest)) = some (i + l.length) := by
  induction l generalizing i with
  | nil => rfl
  | cons a l ih =>
    rw [List.mem_cons, not_or] at h
    rw [List.cons_append, lineEndFrom, if_neg fun ha => h.1 ha.1.symm, ih h.2, List.length_cons]
    exact congrArg some (Nat.add_right_comm i 1 l.length)

variable (limits : Limits)

theorem line_of_not_mem {l : Bytes} (h : cr ∉ l) (rest : Bytes) :
    line limits (l ++ crlf ++ rest) = .done l rest := by
  have hi := lineEndFrom_of_not_mem h 0 rest
  rw [Nat.zero_add] at hi
  unfold line
  rw [List.append_assoc, hi]
  dsimp only
  rw [List.take_left, ← List.drop_drop, List.drop_left]
  rfl

theorem head_lineOf (mark : UInt8) {l : Bytes} (h : cr ∉ l) (rest : Bytes) :
    head limits (lineOf mark l ++ rest) = headOfLine limits mark l rest := by
  have hl : line limits (l ++ crlf ++ rest) = .done l rest := line_of_not_mem limits h rest
  show (line limits).andThen (headOfLine limits mark) (l ++ crlf ++ rest) = _
  rw [Reader.andThen, hl]

theorem numeral_ofInt (bad : ProtocolFault) {n : Int} (hn : Numeral.Readable n.natAbs)
    (rest : Bytes) : numeral bad (Numeral.ofInt n) rest = .done n rest := by
  rw [numeral, Numeral.read_ofInt hn]

theorem numeral_ofNat (bad : ProtocolFault) {n : Nat} (hn : Numeral.Readable n) (rest : Bytes) :
    numeral bad (Numeral.ofNat n) rest = .done (n : Int) rest := numeral_ofInt bad (n := n) hn rest

theorem body_append (data rest : Bytes) : body data.length (data ++ crlf ++ rest) = .done data rest := by
  unfold body
  rw [List.append_assoc, List.drop_left, List.take_left]
  rfl

theorem head_leaf {r : Reply} (hr : r.Sendable limits) (h : ∀ rs, r ≠ .array rs) (rest : Bytes) :
    head limits (r.toBytes ++ rest) = .done (.leaf r.received) rest := by
  cases hr with
  | status ht => exact head_lineOf limits statusMark (cr_not_mem_oneLine ht) rest
  | error ht => exact head_lineOf limits errorMark (cr_not_mem_oneLine ht) rest
  | @integer n hn =>
    rw [Reply.toBytes, head_lineOf limits integerMark (cr_not_mem_ofInt n)]
    show (numeral .integer (Numeral.ofInt n)).andThen _ rest = _
    rw [Reader.andThen, numeral_ofInt _ hn]
    rfl
  | @bulk data hl hn =>
    rw [Reply.toBytes, bulkOf, List.append_assoc, List.append_assoc,
      head_lineOf limits bulkMark (cr_not_mem_ofNat data.length), ← List.append_assoc]
    show (numeral .bulkLength (Numeral.ofNat data.length)).andThen _ _ = _
    rw [Reader.andThen, numeral_ofNat _ hn]
    dsimp only
    rw [bulkHead, if_neg (by omega), if_neg (by omega), Int.toNat_natCast, Reader.andThen,
      body_append]
    rfl
  | null =>
    rw [Reply.toBytes, nullBulk, head_lineOf limits bulkMark (cr_not_mem_ofInt (-1))]
    show (numeral .bulkLength (Numeral.ofInt (-1))).andThen _ _ = _
    rw [Reader.andThen, numeral_ofInt _ (by decide +kernel)]
    rfl
  | array hl hn hi => exact absurd rfl (h _)

theorem head_array {items : List Reply} (hl : items.length ≤ limits.array)
    (hn : Numeral.Readable items.length) (rest : Bytes) :
    head limits (arrayHeader items.length ++ rest) =
      .done (if items = [] then .leaf (.array []) else .array items.length) rest := by
  rw [arrayHeader, head_lineOf limits starMark (cr_not_mem_ofNat items.length)]
  show (numeral .multibulkLength (Numeral.ofNat items.length)).andThen _ rest = _
  rw [Reader.andThen, numeral_ofNat _ hn]
  dsimp only
  rw [arrayHead, if_neg (by omega), if_neg (by omega), Int.toNat_natCast]
  cases items with
  | nil => rfl
  | cons r rs =>
    rw [if_neg (by rw [List.length_cons]; omega), if_neg (List.cons_ne_nil r rs)]
    rfl

def resume : Reply ⊕ List Frame → Reader Reply
  | .inl whole => .give whole
  | .inr frames => replyWithin limits frames

theorem replyWithin_of_leaf {b rest : Bytes} {r : Reply} (h : head limits b = .done (.leaf r) rest)
    (frames : List Frame) : replyWithin limits frames b = resume limits (settle r frames) rest := by
  rw [replyWithin_eq, h]
  dsimp only
  cases settle r frames <;> rfl

theorem settle_last (r : Reply) (items : List Reply) (frames : List Frame) :
    settle r (⟨1, items⟩ :: frames) = settle (.array (r :: items).reverse) frames := by
  rw [settle]
  rfl

theorem settle_of_lt (r : Reply) (n : Nat) (items : List Reply) (frames : List Frame) :
    settle r (⟨n + 2, items⟩ :: frames) = .inr (⟨n + 1, r :: items⟩ :: frames) := by
  have hn : ¬ n + 2 ≤ 1 := by omega
  rw [settle]
  exact if_neg hn

theorem replyWithin_items {r : Reply} {rs : List Reply}
    (h : ∀ x ∈ r :: rs, ∀ frames rest, replyWithin limits frames (x.toBytes ++ rest) =
      resume limits (settle x.received frames) rest)
    (done : List Reply) (frames : List Frame) (rest : Bytes) :
    replyWithin limits (⟨(r :: rs).length, done⟩ :: frames) (Reply.listToBytes (r :: rs) ++ rest) =
      resume limits (settle (.array (done.reverse ++ (r :: rs).map Reply.received)) frames) rest := by
  induction rs generalizing r done with
  | nil =>
    rw [Reply.listToBytes, Reply.listToBytes, List.append_nil, h r List.mem_cons_self]
    show resume limits (settle r.received (⟨1, done⟩ :: frames)) rest = _
    rw [settle_last, List.reverse_cons]
    rfl
  | cons r' rs ih =>
    rw [Reply.listToBytes, List.append_assoc, h r List.mem_cons_self]
    show resume limits (settle r.received (⟨rs.length + 2, done⟩ :: frames)) _ = _
    rw [settle_of_lt]
    have hrest := ih (fun x hx => h x (List.mem_cons_of_mem r hx)) (r.received :: done)
    rw [List.reverse_cons, List.append_assoc] at hrest
    exact hrest

theorem replyWithin_toBytes {r : Reply} (hr : r.Sendable limits) (frames : List Frame)
    (rest : Bytes) :
    replyWithin limits frames (r.toBytes ++ rest) = resume limits (settle r.received frames) rest := by
  -- An array puts a frame of its own around its items, so the frames have to be any.
  induction hr generalizing frames rest with
  | array hl hn hi ih =>
    rename_i items
    have hh := head_array limits hl hn (Reply.listToBytes items ++ rest)
    rw [Reply.toBytes, List.append_assoc, Reply.received, Reply.listReceived_eq]
    cases items with
    | nil => exact replyWithin_of_leaf limits hh frames
    | cons r rs =>
      rw [if_neg (List.cons_ne_nil r rs)] at hh
      rw [replyWithin_eq, hh]
      exact replyWithin_items limits ih [] frames rest
  | _ =>
    refine replyWithin_of_leaf limits (head_leaf limits ?_ (by simp) rest) frames
    constructor <;> assumption

theorem reply_toBytes {r : Reply} (hr : r.Sendable limits) (rest : Bytes) :
    reply limits (r.toBytes ++ rest) = .done r.received rest := replyWithin_toBytes limits hr [] rest

namespace Decoder

def nextReplies : Nat → Decoder → List (Except DecodeError (Option Reply)) × Decoder
  | 0, d => ([], d)
  | n + 1, d =>
    let x := d.nextReply
    let y := nextReplies n x.2
    (x.1 :: y.1, y.2)

variable {limits}

theorem nextReply_toBytes {r : Reply} (hr : r.Sendable limits) (rest : Bytes) :
    (({ limits } : Decoder).feed (r.toBytes ++ rest)).nextReply =
      (.ok (some r.received), ({ limits } : Decoder).feed rest) := by
  have h : reply limits ([] ++ (r.toBytes ++ rest)) = .done r.received rest := reply_toBytes limits hr rest
  rw [nextReply, feed]
  dsimp only
  rw [h]
  rfl

theorem nextReplies_listToBytes {rs : List Reply} (h : ∀ r ∈ rs, r.Sendable limits) (rest : Bytes) :
    (({ limits } : Decoder).feed (Reply.listToBytes rs ++ rest)).nextReplies rs.length =
      (rs.map fun r => .ok (some r.received), ({ limits } : Decoder).feed rest) := by
  induction rs with
  | nil => rfl
  | cons r rs ih =>
    have hr := nextReply_toBytes (h r List.mem_cons_self) (Reply.listToBytes rs ++ rest)
    have hrs := ih fun x hx => h x (List.mem_cons_of_mem r hx)
    rw [Reply.listToBytes, List.append_assoc, List.length_cons, nextReplies, hr]
    dsimp only
    rw [hrs]
    rfl

theorem nextReply_of_prefix {r : Reply} (hr : r.Sendable limits) {p : Bytes} (hp : p <+: r.toBytes)
    (hne : p ≠ r.toBytes) (x : Reply) :
    (({ limits } : Decoder).feed p).nextReply.1 ≠ .ok (some x) := by
  -- A reply found in a part is found in the whole too, where something would be left over.
  obtain ⟨q, hq⟩ := hp
  intro h
  have hfull : reply limits r.toBytes = .done r.received [] := by
    rw [← List.append_nil r.toBytes]
    exact reply_toBytes limits hr []
  cases hpart : reply limits p with
  | more => simp [nextReply, feed, hpart] at h
  | fault e => simp [nextReply, feed, hpart] at h
  | done y rest =>
    have hext : reply limits (p ++ q) = .done y (rest ++ q) := (reply_steady limits).done hpart q
    rw [hq, hfull] at hext
    have hnil : q = [] := (List.append_eq_nil_iff.mp (Progress.done.inj hext).2.symm).2
    rw [hnil, List.append_nil] at hq
    exact hne hq

end Decoder

end Wire

theorem Text.oneLine_ofChars {cs : List Char} (hr : '\r' ∉ cs) (hn : '\n' ∉ cs) :
    oneLine (.ofChars cs) = .ofChars cs := by
  rw [oneLine, ofChars, List.map_map]
  apply List.map_congr_left
  intro c hc
  have hcr : c ≠ '\r' := fun h => hr (h ▸ hc)
  have hcn : c ≠ '\n' := fun h => hn (h ▸ hc)
  exact if_neg (not_or.mpr ⟨hcr, hcn⟩)

theorem Text.received_ofChars {cs : List Char} (hr : '\r' ∉ cs) (hn : '\n' ∉ cs) :
    (Text.ofChars cs).received = .ofChars cs := by
  rw [Text.received, Text.oneLine_ofChars hr hn, Text.ofBytesReplacing_toBytes]

/-- Replies written one after another are read one by one, and no reply before its last byte is there.
Their texts may be any that bytes are read as; those of whole characters in one line do not change. -/
theorem replies_received {limits : Limits} {rs : List Reply} (h : ∀ r ∈ rs, r.Sendable limits)
    (rest : Bytes) :
    (({ limits } : Decoder).feed (Reply.listToBytes rs ++ rest)).nextReplies rs.length =
        (rs.map fun r => .ok (some r.received), ({ limits } : Decoder).feed rest) ∧
      (∀ r ∈ rs, ∀ p, p <+: r.toBytes → p ≠ r.toBytes → ∀ x,
        (({ limits } : Decoder).feed p).nextReply.1 ≠ .ok (some x)) ∧
      (∀ cs : List Char, '\r' ∉ cs → '\n' ∉ cs → (Text.ofChars cs).received = .ofChars cs) ∧
      ∀ b, (Text.ofBytes b).IsDecoded :=
  ⟨Decoder.nextReplies_listToBytes h rest,
    fun r hr _ hp hne x => Decoder.nextReply_of_prefix (h r hr) hp hne x,
    fun _ => Text.received_ofChars, Text.isDecoded_ofBytes⟩

def nested : List Reply :=
  [.array [.bulk (.ofString "a\r\nb"), .array [.null, .array []], .integer (-42)],
    .error (.ofBytes [69, 82, 82, 13, 10, 255])]

theorem sendable_nested {r : Reply} (h : r ∈ nested) : r.Sendable {} := by
  have hempty : (Reply.array []).Sendable {} := .array (by decide) (by decide +kernel) (by simp)
  rw [nested, List.mem_cons, List.mem_singleton] at h
  rcases h with rfl | rfl
  · refine .array (by decide) (by decide +kernel) ?_
    simp only [List.mem_cons, List.not_mem_nil, or_false]
    rintro r (rfl | rfl | rfl)
    · exact .bulk (by decide) (by decide +kernel)
    · refine .array (by decide) (by decide +kernel) ?_
      simp only [List.mem_cons, List.not_mem_nil, or_false]
      rintro r (rfl | rfl)
      · exact .null
      · exact hempty
    · exact .integer (by decide +kernel)
  · exact .error (Text.isDecoded_ofBytes _)

theorem replies_received_nested :
    (({} : Decoder).feed (Reply.listToBytes nested ++ .ofString "+O")).nextReplies 2 =
        (nested.map fun r => .ok (some r.received), ({} : Decoder).feed (.ofString "+O")) ∧
      (∀ r ∈ nested, ∀ p, p <+: r.toBytes → p ≠ r.toBytes → ∀ x,
        (({} : Decoder).feed p).nextReply.1 ≠ .ok (some x)) ∧
      (∀ cs : List Char, '\r' ∉ cs → '\n' ∉ cs → (Text.ofChars cs).received = .ofChars cs) ∧
      ∀ b, (Text.ofBytes b).IsDecoded :=
  replies_received (fun _ => sendable_nested) (.ofString "+O")

end RespStore
