import RespStore.Client.Part
import RespStore.Proofs.Wire.RoundTrip

/-! Requests sent and received. However many requests are sent one after another, and whatever bytes stand
in their arguments, they are read back one by one, and what follows them is left alone. -/

namespace RespStore

open Wire

/-- Parts that make a request within the limits. No machine holds so many bytes that the last two fields
would leave anything out. -/
structure Request.Encodable (limits : Limits) (parts : List Part) : Prop where
  ne_nil : parts ≠ []
  count_le : parts.length ≤ limits.array
  length_le : ∀ p ∈ parts, p.toBytes.length ≤ limits.bulk
  count_lt : parts.length < 10 ^ Numeral.maxDigits
  length_lt : ∀ p ∈ parts, p.toBytes.length < 10 ^ Numeral.maxDigits

namespace Wire

variable {limits : Limits}

theorem number_ofNat (bad : ProtocolFault) {n : Nat} (hn : n < 10 ^ Numeral.maxDigits) (rest : Bytes) :
    number limits bad (Numeral.ofNat n ++ crlf ++ rest) = .done (n : Int) rest := by
  rw [number, Reader.andThen, line_of_not_mem limits (cr_not_mem_ofNat n)]
  exact numeral_ofNat bad (Numeral.readable_iff.mpr hn) rest

theorem argument_bulkOf {data : Bytes} (hl : data.length ≤ limits.bulk)
    (hn : data.length < 10 ^ Numeral.maxDigits) (rest : Bytes) :
    argument limits (bulkOf data ++ rest) = .done data rest := by
  have hsplit : bulkOf data ++ rest =
      bulkMark :: (Numeral.ofNat data.length ++ crlf ++ (data ++ crlf ++ rest)) := by
    simp [bulkOf, lineOf]
  rw [hsplit, argument, if_pos rfl, Reader.andThen, number_ofNat _ hn]
  dsimp only
  rw [argumentBody, if_neg (by omega), Int.toNat_natCast, body_append]

theorem opening_arrayHeader {n : Nat} (h0 : 0 < n) (hl : n ≤ limits.array)
    (hn : n < 10 ^ Numeral.maxDigits) (rest : Bytes) :
    opening limits (arrayHeader n ++ rest) = .done (.arguments n) rest := by
  have hsplit : arrayHeader n ++ rest = starMark :: (Numeral.ofNat n ++ crlf ++ rest) := by
    simp [arrayHeader, lineOf]
  rw [hsplit, opening_cons, if_pos rfl, Reader.andThen, number_ofNat _ hn]
  dsimp only
  rw [openingOfCount, if_neg (by omega), if_pos (by omega), Int.toNat_natCast]
  rfl

theorem fill_bulks {parts : List Bytes}
    (hl : ∀ data ∈ parts, data.length ≤ limits.bulk ∧ data.length < 10 ^ Numeral.maxDigits)
    (args : List Bytes) (rest : Bytes) :
    fill limits parts.length args (Reply.listToBytes (parts.map .bulk) ++ rest) =
      ⟨.ok (some (.ofParts (args.reverse ++ parts))), none, rest⟩ := by
  induction parts generalizing args with
  | nil => rw [List.append_nil]; rfl
  | cons data parts ih =>
    obtain ⟨hd, hn⟩ := hl data List.mem_cons_self
    have hparts := ih (fun x hx => hl x (List.mem_cons_of_mem data hx)) (data :: args)
    rw [List.map_cons, Reply.listToBytes, Reply.toBytes, List.append_assoc, List.length_cons, fill,
      argument_bulkOf hd hn]
    dsimp only
    rw [hparts, List.reverse_cons, List.append_assoc]
    rfl

theorem seek_encodeParts {parts : List Part} (h : Request.Encodable limits parts) (rest : Bytes) :
    seek limits (Request.encodeParts parts ++ rest) =
      ⟨.ok (some (.ofParts (parts.map Part.toBytes))), none, rest⟩ := by
  have hlength : (parts.map Part.toBytes).length = parts.length := List.length_map _
  have hpos : 0 < parts.length := List.length_pos_iff.mpr h.ne_nil
  have hbulks : ∀ data ∈ parts.map Part.toBytes,
      data.length ≤ limits.bulk ∧ data.length < 10 ^ Numeral.maxDigits := by
    intro data hdata
    obtain ⟨p, hp, rfl⟩ := List.mem_map.mp hdata
    exact ⟨h.length_le p hp, h.length_lt p hp⟩
  have hfill := fill_bulks hbulks [] rest
  rw [hlength] at hfill
  rw [Request.encodeParts, Request.encode, Reply.toBytes, List.length_map, hlength, List.append_assoc,
    seek_eq, opening_arrayHeader hpos h.count_le h.count_lt]
  exact hfill

namespace Decoder

def nextRequests : Nat → Decoder → List (Except DecodeError (Option Request)) × Decoder
  | 0, d => ([], d)
  | n + 1, d =>
    let x := d.next
    let y := nextRequests n x.2
    (x.1 :: y.1, y.2)

theorem next_encodeParts {parts : List Part} (h : Request.Encodable limits parts) (rest : Bytes) :
    (({ limits } : Decoder).feed (Request.encodeParts parts ++ rest)).next =
      (.ok (some (.ofParts (parts.map Part.toBytes))), ({ limits } : Decoder).feed rest) := by
  have hs := seek_encodeParts h rest
  rw [next, feed]
  dsimp only
  rw [List.nil_append, scan, hs]
  rfl

/-- Requests written one after another are read one by one, each as its parts were, and the decoder is then
as fresh as before, with the bytes that follow. -/
theorem nextRequests_encodeParts {rs : List (List Part)} (h : ∀ ps ∈ rs, Request.Encodable limits ps)
    (rest : Bytes) :
    (({ limits } : Decoder).feed (rs.flatMap Request.encodeParts ++ rest)).nextRequests rs.length =
      (rs.map fun ps => .ok (some (.ofParts (ps.map Part.toBytes))),
        ({ limits } : Decoder).feed rest) := by
  induction rs with
  | nil => rfl
  | cons ps rs ih =>
    have hfirst := next_encodeParts (h ps List.mem_cons_self) (rs.flatMap Request.encodeParts ++ rest)
    have hrest := ih fun qs hqs => h qs (List.mem_cons_of_mem ps hqs)
    rw [List.flatMap_cons, List.append_assoc, List.length_cons, nextRequests, hfirst]
    dsimp only
    rw [hrest]
    rfl

def markedParts : List (List Part) :=
  [[.bytes (.ofString "*2\r\n$1\r\n"), .bytes [], .text (.ofString "é\r\n")],
    [.text (.ofBytes [0xC3, 0x28])]]

theorem nextRequests_encodeParts_marked :
    (∀ ps ∈ markedParts, Request.Encodable {} ps) ∧
      (({} : Decoder).feed (markedParts.flatMap Request.encodeParts ++ .ofString "$1\r\n*")).nextRequests 2 =
        (markedParts.map fun ps => .ok (some (.ofParts (ps.map Part.toBytes))),
          ({} : Decoder).feed (.ofString "$1\r\n*")) := by
  have h : ∀ ps ∈ markedParts, Request.Encodable {} ps := by
    simp only [markedParts, List.mem_cons, List.not_mem_nil, or_false]
    rintro ps (rfl | rfl)
    all_goals
      refine ⟨by simp, by decide, by decide +kernel, Numeral.readable_iff.mp (by decide +kernel), ?_⟩
      intro p hp
      exact Numeral.readable_iff.mp (by revert p; decide +kernel)
  exact ⟨h, nextRequests_encodeParts h _⟩

end Decoder

end Wire

end RespStore
