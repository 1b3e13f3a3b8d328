import RespStore.Proofs.Text.Lossless

/-! Where characters stand in bytes that need not be UTF-8. A byte that can begin a character ends whatever part came
before it, so whole characters are read wherever they stand, and the bytes around them as if they stood alone. -/

namespace RespStore.Utf8

variable {b : UInt8} {l : Lead}

theorem not_trailing_of_lead? (h : lead? b = some l) : ¬(0x80 ≤ b ∧ b ≤ 0xBF) := by
  rw [UInt8.le_iff_toNat_le, UInt8.le_iff_toNat_le]
  show ¬(128 ≤ b.toNat ∧ b.toNat ≤ 191)
  rcases lead?_cases h with ⟨hb, -⟩ | ⟨hb, -⟩ | ⟨hb, -⟩ | ⟨hb, -⟩
  · have hb : b.toNat < 128 := UInt8.lt_iff_toNat_lt.mp hb
    omega
  · omega
  · omega
  · omega

theorem high_of_lead? (h : lead? b = some l) : l.high ≤ 0xBF := by
  rcases lead?_cases h with ⟨-, rfl⟩ | ⟨-, rfl⟩ | ⟨-, rfl⟩ | ⟨-, rfl⟩
  · exact UInt8.le_refl _
  · exact UInt8.le_refl _
  · dsimp only
    split <;> decide
  · dsimp only
    split <;> decide

theorem trail_append (hb : ¬(0x80 ≤ b ∧ b ≤ 0xBF)) {n : Nat} {low high : UInt8} (hlow : 0x80 ≤ low)
    (hhigh : high ≤ 0xBF) (x y : Bytes) : trail n low high (x ++ b :: y) = trail n low high x := by
  induction n generalizing low high x with
  | zero => cases x <;> rfl
  | succ n ih =>
    cases x with
    | nil => exact if_neg fun h => hb ⟨UInt8.le_trans hlow h.1, UInt8.le_trans h.2 hhigh⟩
    | cons a x => rw [List.cons_append, trail, trail, ih (UInt8.le_refl _) (UInt8.le_refl _)]

theorem segment_append (hb : ¬(0x80 ≤ b ∧ b ≤ 0xBF)) (a : UInt8) (x y : Bytes) :
    segment a (x ++ b :: y) = ((segment a x).1, (segment a x).2 ++ b :: y) := by
  unfold segment
  cases ha : lead? a with
  | none => rfl
  | some m =>
    have ht : trail m.trailing m.low m.high (x ++ b :: y) = trail m.trailing m.low m.high x :=
      trail_append hb (low_of_lead? ha) (high_of_lead? ha) x y
    have hlength : (trail m.trailing m.low m.high x).length ≤ x.length := trail_prefix.length_le
    dsimp only
    rw [ht, List.drop_append_of_le_length hlength]

theorem segments_append (hb : ¬(0x80 ≤ b ∧ b ≤ 0xBF)) (x y : Bytes) :
    segments (x ++ b :: y) = segments x ++ segments (b :: y) := by
  -- A segment takes one byte or several, so the bytes before have to be any fewer.
  induction hn : x.length using Nat.strongRecOn generalizing x with
  | ind n ih =>
    cases x with
    | nil => rw [segments_nil]; rfl
    | cons a x =>
      have hlt : (segment a x).2.length < n := by
        rw [← hn]
        exact Nat.lt_succ_of_le (segment_length_le a x)
      rw [List.cons_append, segments_cons a, segment_append hb, segments_cons a x]
      exact congrArg _ (ih _ hlt _ rfl)

theorem exists_encodeChar_cons (c : Char) :
    ∃ b t, String.utf8EncodeChar c = b :: t ∧ ¬(0x80 ≤ b ∧ b ≤ 0xBF) := by
  obtain ⟨b, t, hc, hs⟩ := segment_encodeChar c []
  refine ⟨b, t, hc, ?_⟩
  cases hb : lead? b with
  | none => simp [segment, hb] at hs
  | some l => exact not_trailing_of_lead? hb

end RespStore.Utf8

namespace RespStore.Text

@[simp] theorem ofBytes_nil : ofBytes [] = [] := by rw [ofBytes, Utf8.segments_nil, List.flatMap_nil]

theorem ofBytes_append_of_chars (cs : List Char) (y : Bytes) :
    ofBytes ((ofChars cs).toBytes ++ y) = ofChars cs ++ ofBytes y := by
  rw [ofBytes, Utf8.segments_chars, List.flatMap_append, List.flatMap_map]
  exact congrArg (· ++ ofBytes y) (List.map_eq_flatMap ..).symm

theorem ofBytes_chars (cs : List Char) : ofBytes (ofChars cs).toBytes = ofChars cs := by
  have h := ofBytes_append_of_chars cs []
  rwa [List.append_nil, ofBytes_nil, List.append_nil] at h

theorem ofBytes_append_chars (x : Bytes) {cs : List Char} (hcs : cs ≠ []) (y : Bytes) :
    ofBytes (x ++ ((ofChars cs).toBytes ++ y)) = ofBytes x ++ (ofChars cs ++ ofBytes y) := by
  obtain ⟨c, ds, rfl⟩ := List.exists_cons_of_ne_nil hcs
  obtain ⟨b, t, hc, hb⟩ := Utf8.exists_encodeChar_cons c
  have hbytes : (ofChars (c :: ds)).toBytes ++ y = b :: (t ++ ((ofChars ds).toBytes ++ y)) := by
    show (String.utf8EncodeChar c ++ (ofChars ds).toBytes) ++ y = _
    rw [hc, List.append_assoc, List.cons_append]
  rw [← ofBytes_append_of_chars, hbytes, ofBytes, Utf8.segments_append hb, List.flatMap_append]
  rfl

end RespStore.Text
