import RespStore.Text.Utf8

/-! UTF-8 read back. The bytes of a character are one whole segment, whatever follows them, so text of whole
characters survives every way of reading. -/

namespace RespStore.Utf8

def continuation (v : Nat) : UInt8 := .ofNat (v % 0x40 + 0x80)

theorem toNat_continuation (v : Nat) : (continuation v).toNat = v % 0x40 + 0x80 := by
  rw [continuation, UInt8.toNat_ofNat']
  omega

theorem continuation_mem (v : Nat) : 0x80 ≤ continuation v ∧ continuation v ≤ 0xBF := by
  have hv := toNat_continuation v
  rw [UInt8.le_iff_toNat_le, UInt8.le_iff_toNat_le, hv]
  constructor
  · exact Nat.le_add_left _ _
  · show v % 0x40 + 0x80 ≤ 0xBF
    omega

theorem lead?_ofNat {n : Nat} (h : n < 0x100) :
    lead? (.ofNat n) =
      if n < 0x80 then some ⟨0, 0x80, 0xBF, n⟩
      else if n < 0xC2 then none
      else if n < 0xE0 then some ⟨1, 0x80, 0xBF, n - 0xC0⟩
      else if n < 0xF0 then
        some ⟨2, if n = 0xE0 then 0xA0 else 0x80, if n = 0xED then 0x9F else 0xBF, n - 0xE0⟩
      else if n < 0xF5 then
        some ⟨3, if n = 0xF0 then 0x90 else 0x80, if n = 0xF4 then 0x8F else 0xBF, n - 0xF0⟩
      else none := by
  have hn : (UInt8.ofNat n).toNat = n := by
    rw [UInt8.toNat_ofNat']
    omega
  unfold lead?
  simp only [UInt8.lt_iff_toNat_lt, ← UInt8.toNat_inj, hn, UInt8.reduceToNat]

theorem trail_continuations (vs : List Nat) (rest : Bytes) :
    trail vs.length 0x80 0xBF (vs.map continuation ++ rest) = vs.map continuation := by
  induction vs with
  | nil => cases rest <;> rfl
  | cons v vs ih =>
    rw [List.length_cons, List.map_cons, List.cons_append, trail, if_pos (continuation_mem v), ih]

theorem trail_cons {low high : UInt8} {v : Nat} (h : low ≤ continuation v ∧ continuation v ≤ high)
    (vs : List Nat) (rest : Bytes) :
    trail (vs.length + 1) low high ((v :: vs).map continuation ++ rest) =
      (v :: vs).map continuation := by
  rw [List.map_cons, List.cons_append, trail, if_pos h, trail_continuations]

theorem segment_of_trail {b : UInt8} {l : Lead} {t : Bytes} {c : Char} (hl : lead? b = some l)
    (rest : Bytes) (ht : trail l.trailing l.low l.high (t ++ rest) = t)
    (hn : t.length = l.trailing) (hc : codePoint l.bits t = c.toNat) :
    segment b (t ++ rest) = (.char c, rest) := by
  unfold segment
  rw [hl]
  dsimp only
  rw [ht, if_pos hn, hc, Char.ofNat_toNat, List.drop_left]

theorem codePoint_map (bits : Nat) (vs : List Nat) :
    codePoint bits (vs.map continuation) = vs.foldl (fun n v => n * 64 + v % 64) bits := by
  unfold codePoint
  rw [List.foldl_map]
  refine congrArg (fun f => vs.foldl f bits) (funext fun n => funext fun v => ?_)
  rw [toNat_continuation, Nat.add_sub_cancel]

theorem le_continuation {n v : Nat} (hn : n < 0x100) (h : n ≤ v % 0x40 + 0x80) :
    UInt8.ofNat n ≤ continuation v := by
  rw [UInt8.le_iff_toNat_le, toNat_continuation, UInt8.toNat_ofNat']
  omega

theorem continuation_le {n v : Nat} (hn : n < 0x100) (h : v % 0x40 + 0x80 ≤ n) :
    continuation v ≤ UInt8.ofNat n := by
  rw [UInt8.le_iff_toNat_le, toNat_continuation, UInt8.toNat_ofNat']
  omega

theorem encodeChar_eq (c : Char) :
    String.utf8EncodeChar c =
      if c.toNat ≤ 0x7F then [.ofNat c.toNat]
      else if c.toNat ≤ 0x7FF then
        .ofNat (c.toNat / 64 % 0x20 + 0xC0) :: [c.toNat].map continuation
      else if c.toNat ≤ 0xFFFF then
        .ofNat (c.toNat / 4096 % 0x10 + 0xE0) :: [c.toNat / 64, c.toNat].map continuation
      else
        .ofNat (c.toNat / 262144 % 0x08 + 0xF0) ::
          [c.toNat / 4096, c.toNat / 64, c.toNat].map continuation := rfl

variable (c : Char) (rest : Bytes)

theorem segment_one (h : c.toNat ≤ 0x7F) : segment (.ofNat c.toNat) rest = (.char c, rest) := by
  have hl : lead? (.ofNat c.toNat) = some ⟨0, 0x80, 0xBF, c.toNat⟩ := by
    rw [lead?_ofNat (by omega), if_pos (by omega)]
  exact segment_of_trail hl rest (trail_continuations [] rest) rfl rfl

theorem segment_two (h : 0x7F < c.toNat) (h' : c.toNat ≤ 0x7FF) :
    segment (.ofNat (c.toNat / 64 % 0x20 + 0xC0)) ([c.toNat].map continuation ++ rest) =
      (.char c, rest) := by
  have hl : lead? (.ofNat (c.toNat / 64 % 0x20 + 0xC0)) =
      some ⟨1, 0x80, 0xBF, c.toNat / 64 % 0x20 + 0xC0 - 0xC0⟩ := by
    rw [lead?_ofNat (by omega), if_neg (by omega), if_neg (by omega), if_pos (by omega)]
  refine segment_of_trail hl rest (trail_continuations [c.toNat] rest) rfl ?_
  rw [codePoint_map]
  simp only [List.foldl_cons, List.foldl_nil]
  omega

theorem segment_three (h : 0x7FF < c.toNat) (h' : c.toNat ≤ 0xFFFF) :
    segment (.ofNat (c.toNat / 4096 % 0x10 + 0xE0))
      ([c.toNat / 64, c.toNat].map continuation ++ rest) = (.char c, rest) := by
  have hv : c.toNat < 0xD800 ∨ 0xDFFF < c.toNat ∧ c.toNat < 0x110000 := c.valid
  have hl : lead? (.ofNat (c.toNat / 4096 % 0x10 + 0xE0)) =
      some ⟨2, if c.toNat / 4096 % 0x10 + 0xE0 = 0xE0 then 0xA0 else 0x80,
        if c.toNat / 4096 % 0x10 + 0xE0 = 0xED then 0x9F else 0xBF,
        c.toNat / 4096 % 0x10 + 0xE0 - 0xE0⟩ := by
    rw [lead?_ofNat (by omega), if_neg (by omega), if_neg (by omega), if_neg (by omega),
      if_pos (by omega)]
  refine segment_of_trail hl rest (trail_cons ⟨?_, ?_⟩ [c.toNat] rest) rfl ?_
  · dsimp only
    split
    · exact le_continuation (n := 0xA0) (by omega) (by omega)
    · exact (continuation_mem _).1
  · dsimp only
    split
    · exact continuation_le (n := 0x9F) (by omega) (by omega)
    · exact (continuation_mem _).2
  · rw [codePoint_map]
    simp only [List.foldl_cons, List.foldl_nil]
    omega

theorem segment_four (h : 0xFFFF < c.toNat) :
    segment (.ofNat (c.toNat / 262144 % 0x08 + 0xF0))
      ([c.toNat / 4096, c.toNat / 64, c.toNat].map continuation ++ rest) = (.char c, rest) := by
  have hv : c.toNat < 0xD800 ∨ 0xDFFF < c.toNat ∧ c.toNat < 0x110000 := c.valid
  have hl : lead? (.ofNat (c.toNat / 262144 % 0x08 + 0xF0)) =
      some ⟨3, if c.toNat / 262144 % 0x08 + 0xF0 = 0xF0 then 0x90 else 0x80,
        if c.toNat / 262144 % 0x08 + 0xF0 = 0xF4 then 0x8F else 0xBF,
        c.toNat / 262144 % 0x08 + 0xF0 - 0xF0⟩ := by
    rw [lead?_ofNat (by omega), if_neg (by omega), if_neg (by omega), if_neg (by omega),
      if_neg (by omega), if_pos (by omega)]
  refine segment_of_trail hl rest (trail_cons ⟨?_, ?_⟩ [c.toNat / 64, c.toNat] rest) rfl ?_
  · dsimp only
    split
    · exact le_continuation (n := 0x90) (by omega) (by omega)
    · exact (continuation_mem _).1
  · dsimp only
    split
    · exact continuation_le (n := 0x8F) (by omega) (by omega)
    · exact (continuation_mem _).2
  · rw [codePoint_map]
    simp only [List.foldl_cons, List.foldl_nil]
    omega

theorem segment_encodeChar :
    ∃ b t, String.utf8EncodeChar c = b :: t ∧ segment b (t ++ rest) = (.char c, rest) := by
  rw [encodeChar_eq]
  split
  · rename_i h
    exact ⟨_, [], rfl, segment_one c rest h⟩
  split
  · rename_i h h'
    exact ⟨_, _, rfl, segment_two c rest (Nat.lt_of_not_le h) h'⟩
  split
  · rename_i h h'
    exact ⟨_, _, rfl, segment_three c rest (Nat.lt_of_not_le h) h'⟩
  · rename_i h
    exact ⟨_, _, rfl, segment_four c rest (Nat.lt_of_not_le h)⟩

theorem segments_encodeChar :
    segments (String.utf8EncodeChar c ++ rest) = .char c :: segments rest := by
  obtain ⟨b, t, hc, hs⟩ := segment_encodeChar c rest
  rw [hc, List.cons_append, segments_cons, hs]

theorem segments_chars (cs : List Char) :
    segments ((Text.ofChars cs).toBytes ++ rest) = cs.map .char ++ segments rest := by
  induction cs with
  | nil => rfl
  | cons c cs ih =>
    have hc : (Text.ofChars (c :: cs)).toBytes =
        String.utf8EncodeChar c ++ (Text.ofChars cs).toBytes := Text.toBytes_cons _ _
    rw [hc, List.append_assoc, segments_encodeChar, ih]
    rfl

theorem le_of_mem_continuations {vs : List Nat} {b : UInt8} (hb : b ∈ vs.map continuation) :
    0x80 ≤ b.toNat := by
  obtain ⟨v, -, rfl⟩ := List.mem_map.mp hb
  rw [toNat_continuation]
  exact Nat.le_add_left _ _

theorem le_of_mem_cons {n : Nat} (hn : 0x80 ≤ n) (hn' : n < 0x100) {vs : List Nat} {b : UInt8}
    (hb : b ∈ UInt8.ofNat n :: vs.map continuation) : 0x80 ≤ b.toNat := by
  rcases List.mem_cons.mp hb with rfl | hb
  · rw [UInt8.toNat_ofNat']
    omega
  · exact le_of_mem_continuations hb

variable {c : Char} {b : UInt8}

theorem toNat_of_mem_encodeChar (hb : b ∈ String.utf8EncodeChar c) (h : b.toNat < 0x80) :
    c.toNat = b.toNat := by
  rw [encodeChar_eq] at hb
  split at hb
  · obtain rfl := List.mem_singleton.mp hb
    rw [UInt8.toNat_ofNat']
    omega
  split at hb
  · exact absurd (le_of_mem_cons (by omega) (by omega) hb) (Nat.not_le_of_lt h)
  split at hb
  · exact absurd (le_of_mem_cons (by omega) (by omega) hb) (Nat.not_le_of_lt h)
  · exact absurd (le_of_mem_cons (by omega) (by omega) hb) (Nat.not_le_of_lt h)

theorem le_of_mem_trail {n : Nat} {low high : UInt8} {r : Bytes} (hl : 0x80 ≤ low)
    (hb : b ∈ trail n low high r) : 0x80 ≤ b := by
  induction n generalizing low high r with
  | zero => simp [trail] at hb
  | succ n ih =>
    cases r with
    | nil => simp [trail] at hb
    | cons x r =>
      rw [trail] at hb
      split at hb
      · rename_i hx
        rcases List.mem_cons.mp hb with rfl | hb
        · exact UInt8.le_trans hl hx.1
        · exact ih (UInt8.le_refl _) hb
      · simp at hb

theorem lead?_of_lt (h : b < 0x80) : lead? b = some ⟨0, 0x80, 0xBF, b.toNat⟩ := if_pos h

theorem low_of_lead? {l : Lead} (h : lead? b = some l) : 0x80 ≤ l.low := by
  unfold lead? at h
  split at h
  · obtain rfl := Option.some.inj h
    exact UInt8.le_refl _
  split at h
  · simp at h
  split at h
  · obtain rfl := Option.some.inj h
    exact UInt8.le_refl _
  split at h
  · obtain rfl := Option.some.inj h
    dsimp only
    split <;> decide
  split at h
  · obtain rfl := Option.some.inj h
    dsimp only
    split <;> decide
  · simp at h

theorem le_of_malformed {r part : Bytes} {x : UInt8} (h : (segment b r).1 = .malformed part)
    (hx : x ∈ part) : 0x80 ≤ x := by
  by_cases hb : b < 0x80
  · rw [segment, lead?_of_lt hb] at h
    simp [trail] at h
  · have hb : 0x80 ≤ b := UInt8.not_lt.mp hb
    unfold segment at h
    cases hl : lead? b with
    | none =>
      rw [hl] at h
      obtain rfl := Segment.malformed.inj h
      obtain rfl := List.mem_singleton.mp hx
      exact hb
    | some l =>
      rw [hl] at h
      dsimp only at h
      split at h
      · simp at h
      · obtain rfl := Segment.malformed.inj h
        rcases List.mem_cons.mp hx with rfl | hx
        · exact hb
        · exact le_of_mem_trail (low_of_lead? hl) hx

theorem le_of_mem_segments {bs part : Bytes} {x : UInt8} (h : .malformed part ∈ segments bs)
    (hx : x ∈ part) : 0x80 ≤ x := by
  -- A segment takes one byte or several, so the bytes have to be any fewer.
  induction hn : bs.length using Nat.strongRecOn generalizing bs with
  | ind n ih =>
    cases bs with
    | nil => simp at h
    | cons b r =>
      rw [segments_cons] at h
      rcases List.mem_cons.mp h with h | h
      · exact le_of_malformed h.symm hx
      · have hr : (segment b r).2.length ≤ r.length := segment_length_le b r
        rw [List.length_cons] at hn
        exact ih _ (by omega) h rfl

end RespStore.Utf8

namespace RespStore.Text

/-- Whether every stray byte lies beyond ASCII, as in whatever is read from bytes. -/
def IsDecoded (t : Text) : Prop := ∀ b, .stray b ∈ t → 0x80 ≤ b.toNat

theorem isDecoded_ofBytes (bs : Bytes) : (ofBytes bs).IsDecoded := by
  intro b hb
  obtain ⟨seg, hseg, hb⟩ := List.mem_flatMap.mp hb
  cases seg with
  | char c => simp [Utf8.Segment.kept] at hb
  | malformed part =>
    have hpart : b ∈ part := by simpa [Utf8.Segment.kept] using hb
    exact UInt8.le_iff_toNat_le.mp (Utf8.le_of_mem_segments hseg hpart)

theorem isDecoded_append {t u : Text} (ht : t.IsDecoded) (hu : u.IsDecoded) : IsDecoded (t ++ u) := by
  intro b hb
  rcases List.mem_append.mp hb with h | h
  · exact ht b h
  · exact hu b h

theorem isDecoded_ofChars (cs : List Char) : (ofChars cs).IsDecoded := by
  intro b hb
  obtain ⟨c, -, hc⟩ := List.mem_map.mp hb
  cases hc

theorem ofBytesReplacing_toBytes (cs : List Char) : ofBytesReplacing (ofChars cs).toBytes = ofChars cs := by
  have hs := Utf8.segments_chars [] cs
  rw [List.append_nil, Utf8.segments_nil, List.append_nil] at hs
  rw [ofBytesReplacing, hs, List.flatMap_map]
  exact (List.map_eq_flatMap ..).symm

end RespStore.Text
