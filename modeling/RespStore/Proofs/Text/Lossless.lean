import RespStore.Proofs.Text.Utf8

/-! Reading loses no byte. Whatever a segment was cut from is written back for it, so the bytes of a text that was
read are the bytes it was read from, and different bytes are read as different texts. -/

namespace RespStore.Utf8

def Segment.source : Segment → Bytes
  | char c => String.utf8EncodeChar c
  | malformed part => part

theorem toBytes_kept (s : Segment) : s.kept.toBytes = s.source := by
  cases s with
  | char c => exact List.append_nil _
  | malformed part =>
    show (part.map Glyph.stray).flatMap Glyph.toBytes = part
    rw [List.flatMap_map]
    exact List.flatMap_singleton' part

variable {b x : UInt8} {l : Lead} {n v : Nat} {low high : UInt8} {r : Bytes}

theorem continuation_eq (h : v % 0x40 + 0x80 = x.toNat) : continuation v = x :=
  UInt8.toNat_inj.mp ((toNat_continuation v).trans h)

theorem ofNat_eq (h : n = b.toNat) : UInt8.ofNat n = b := by
  rw [h, UInt8.ofNat_toNat]

theorem toNat_ofNat (h : n < 0xD800 ∨ 0xDFFF < n ∧ n < 0x110000) : (Char.ofNat n).toNat = n := by
  have hv : n.isValidChar := h
  rw [Char.ofNat, dif_pos hv]
  rfl

theorem trail_prefix : trail n low high r <+: r := by
  induction n generalizing low high r with
  | zero => cases r <;> exact List.nil_prefix
  | succ n ih =>
    cases r with
    | nil => exact List.nil_prefix
    | cons x r =>
      rw [trail]
      split
      · exact (List.prefix_cons_inj x).mpr ih
      · exact List.nil_prefix

theorem exists_of_trail (h : (trail (n + 1) low high r).length = n + 1) :
    ∃ x r', trail (n + 1) low high r = x :: trail n 0x80 0xBF r' ∧ (low ≤ x ∧ x ≤ high) ∧
      (trail n 0x80 0xBF r').length = n := by
  cases r with
  | nil => cases h
  | cons x r =>
    rw [trail] at h ⊢
    split at h
    · rename_i hx
      rw [if_pos hx]
      exact ⟨x, r, rfl, hx, Nat.succ.inj h⟩
    · cases h

theorem encodeChar_one (hb : b < 0x80) : String.utf8EncodeChar (.ofNat b.toNat) = [b] := by
  have hb : b.toNat < 0x80 := UInt8.lt_iff_toNat_lt.mp hb
  have hc : (Char.ofNat b.toNat).toNat = b.toNat := toNat_ofNat (by omega)
  rw [encodeChar_eq, hc, if_pos (by omega), ofNat_eq rfl]

theorem encodeChar_two (hb : 0xC2 ≤ b.toNat ∧ b.toNat < 0xE0) (hx : 0x80 ≤ x.toNat ∧ x.toNat ≤ 0xBF) :
    String.utf8EncodeChar (.ofNat (codePoint (b.toNat - 0xC0) [x])) = [b, x] := by
  have hn : codePoint (b.toNat - 0xC0) [x] = (b.toNat - 0xC0) * 64 + (x.toNat - 0x80) := rfl
  generalize codePoint (b.toNat - 0xC0) [x] = n at hn
  have hc : (Char.ofNat n).toNat = n := toNat_ofNat (by omega)
  have hlead : UInt8.ofNat (n / 64 % 0x20 + 0xC0) = b := ofNat_eq (by omega)
  have hlast : continuation n = x := continuation_eq (by omega)
  rw [encodeChar_eq, hc, if_neg (by omega), if_pos (by omega), hlead, List.map_singleton, hlast]

theorem bounds_of_low {a narrow wide : UInt8} (hw : wide ≤ narrow)
    (h : (if b = a then narrow else wide) ≤ x) :
    wide.toNat ≤ x.toNat ∧ (b.toNat = a.toNat → narrow.toNat ≤ x.toNat) := by
  by_cases hb : b = a
  · rw [if_pos hb] at h
    exact ⟨UInt8.le_iff_toNat_le.mp (UInt8.le_trans hw h), fun _ => UInt8.le_iff_toNat_le.mp h⟩
  · rw [if_neg hb] at h
    exact ⟨UInt8.le_iff_toNat_le.mp h, fun hab => absurd (UInt8.toNat_inj.mp hab) hb⟩

theorem bounds_of_high {a narrow wide : UInt8} (hw : narrow ≤ wide)
    (h : x ≤ if b = a then narrow else wide) :
    x.toNat ≤ wide.toNat ∧ (b.toNat = a.toNat → x.toNat ≤ narrow.toNat) := by
  by_cases hb : b = a
  · rw [if_pos hb] at h
    exact ⟨UInt8.le_iff_toNat_le.mp (UInt8.le_trans h hw), fun _ => UInt8.le_iff_toNat_le.mp h⟩
  · rw [if_neg hb] at h
    exact ⟨UInt8.le_iff_toNat_le.mp h, fun hab => absurd (UInt8.toNat_inj.mp hab) hb⟩

variable {y z : UInt8}

theorem encodeChar_three (hb : 0xE0 ≤ b.toNat ∧ b.toNat < 0xF0)
    (hx : (if b = 0xE0 then 0xA0 else 0x80) ≤ x ∧ x ≤ if b = 0xED then 0x9F else 0xBF)
    (hy : 0x80 ≤ y.toNat ∧ y.toNat ≤ 0xBF) :
    String.utf8EncodeChar (.ofNat (codePoint (b.toNat - 0xE0) [x, y])) = [b, x, y] := by
  have hlow : 0x80 ≤ x.toNat ∧ (b.toNat = 0xE0 → 0xA0 ≤ x.toNat) := bounds_of_low (by decide) hx.1
  have hhigh : x.toNat ≤ 0xBF ∧ (b.toNat = 0xED → x.toNat ≤ 0x9F) := bounds_of_high (by decide) hx.2
  have hn : codePoint (b.toNat - 0xE0) [x, y] =
      ((b.toNat - 0xE0) * 64 + (x.toNat - 0x80)) * 64 + (y.toNat - 0x80) := rfl
  generalize codePoint (b.toNat - 0xE0) [x, y] = n at hn
  have hc : (Char.ofNat n).toNat = n := toNat_ofNat (by omega)
  have hlead : UInt8.ofNat (n / 4096 % 0x10 + 0xE0) = b := ofNat_eq (by omega)
  have hmiddle : continuation (n / 64) = x := continuation_eq (by omega)
  have hlast : continuation n = y := continuation_eq (by omega)
  rw [encodeChar_eq, hc, if_neg (by omega), if_neg (by omega), if_pos (by omega), hlead,
    List.map_cons, List.map_singleton, hmiddle, hlast]

theorem encodeChar_four (hb : 0xF0 ≤ b.toNat ∧ b.toNat < 0xF5)
    (hx : (if b = 0xF0 then 0x90 else 0x80) ≤ x ∧ x ≤ if b = 0xF4 then 0x8F else 0xBF)
    (hy : 0x80 ≤ y.toNat ∧ y.toNat ≤ 0xBF) (hz : 0x80 ≤ z.toNat ∧ z.toNat ≤ 0xBF) :
    String.utf8EncodeChar (.ofNat (codePoint (b.toNat - 0xF0) [x, y, z])) = [b, x, y, z] := by
  have hlow : 0x80 ≤ x.toNat ∧ (b.toNat = 0xF0 → 0x90 ≤ x.toNat) := bounds_of_low (by decide) hx.1
  have hhigh : x.toNat ≤ 0xBF ∧ (b.toNat = 0xF4 → x.toNat ≤ 0x8F) := bounds_of_high (by decide) hx.2
  have hn : codePoint (b.toNat - 0xF0) [x, y, z] =
      (((b.toNat - 0xF0) * 64 + (x.toNat - 0x80)) * 64 + (y.toNat - 0x80)) * 64 +
        (z.toNat - 0x80) := rfl
  generalize codePoint (b.toNat - 0xF0) [x, y, z] = n at hn
  have hc : (Char.ofNat n).toNat = n := toNat_ofNat (by omega)
  have hlead : UInt8.ofNat (n / 262144 % 0x08 + 0xF0) = b := ofNat_eq (by omega)
  have hsecond : continuation (n / 4096) = x := continuation_eq (by omega)
  have hthird : continuation (n / 64) = y := continuation_eq (by omega)
  have hlast : continuation n = z := continuation_eq (by omega)
  rw [encodeChar_eq, hc, if_neg (by omega), if_neg (by omega), if_neg (by omega), hlead,
    List.map_cons, List.map_cons, List.map_singleton, hsecond, hthird, hlast]

theorem toNat_bounds (h : 0x80 ≤ x ∧ x ≤ 0xBF) : 0x80 ≤ x.toNat ∧ x.toNat ≤ 0xBF :=
  ⟨UInt8.le_iff_toNat_le.mp h.1, UInt8.le_iff_toNat_le.mp h.2⟩

theorem lead?_cases (h : lead? b = some l) :
    b < 0x80 ∧ l = ⟨0, 0x80, 0xBF, b.toNat⟩ ∨
      (0xC2 ≤ b.toNat ∧ b.toNat < 0xE0) ∧ l = ⟨1, 0x80, 0xBF, b.toNat - 0xC0⟩ ∨
      (0xE0 ≤ b.toNat ∧ b.toNat < 0xF0) ∧
        l = ⟨2, if b = 0xE0 then 0xA0 else 0x80, if b = 0xED then 0x9F else 0xBF, b.toNat - 0xE0⟩ ∨
      (0xF0 ≤ b.toNat ∧ b.toNat < 0xF5) ∧
        l = ⟨3, if b = 0xF0 then 0x90 else 0x80, if b = 0xF4 then 0x8F else 0xBF, b.toNat - 0xF0⟩ := by
  unfold lead? at h
  split at h
  · rename_i h80
    exact .inl ⟨h80, (Option.some.inj h).symm⟩
  split at h
  · cases h
  split at h
  · rename_i hC2 hE0
    rw [UInt8.lt_iff_toNat_lt] at hC2 hE0
    exact .inr (.inl ⟨⟨Nat.not_lt.mp hC2, hE0⟩, (Option.some.inj h).symm⟩)
  split at h
  · rename_i hE0 hF0
    rw [UInt8.lt_iff_toNat_lt] at hE0 hF0
    exact .inr (.inr (.inl ⟨⟨Nat.not_lt.mp hE0, hF0⟩, (Option.some.inj h).symm⟩))
  split at h
  · rename_i hF0 hF5
    rw [UInt8.lt_iff_toNat_lt] at hF0 hF5
    exact .inr (.inr (.inr ⟨⟨Nat.not_lt.mp hF0, hF5⟩, (Option.some.inj h).symm⟩))
  · cases h

theorem encodeChar_of_trail (hl : lead? b = some l)
    (h : (trail l.trailing l.low l.high r).length = l.trailing) :
    String.utf8EncodeChar (.ofNat (codePoint l.bits (trail l.trailing l.low l.high r))) =
      b :: trail l.trailing l.low l.high r := by
  rcases lead?_cases hl with ⟨hb, rfl⟩ | ⟨hb, rfl⟩ | ⟨hb, rfl⟩ | ⟨hb, rfl⟩
  · rw [List.length_eq_zero_iff.mp h]
    exact encodeChar_one hb
  · obtain ⟨x, r₁, ht, hx, h⟩ := exists_of_trail h
    rw [ht, List.length_eq_zero_iff.mp h]
    exact encodeChar_two hb (toNat_bounds hx)
  · obtain ⟨x, r₁, ht, hx, h⟩ := exists_of_trail h
    obtain ⟨y, r₂, hu, hy, h⟩ := exists_of_trail h
    rw [ht, hu, List.length_eq_zero_iff.mp h]
    exact encodeChar_three hb hx (toNat_bounds hy)
  · obtain ⟨x, r₁, ht, hx, h⟩ := exists_of_trail h
    obtain ⟨y, r₂, hu, hy, h⟩ := exists_of_trail h
    obtain ⟨z, r₃, hv, hz, h⟩ := exists_of_trail h
    rw [ht, hu, hv, List.length_eq_zero_iff.mp h]
    exact encodeChar_four hb hx (toNat_bounds hy) (toNat_bounds hz)

theorem source_segment (b : UInt8) (r : Bytes) : (segment b r).1.source ++ (segment b r).2 = b :: r := by
  unfold segment
  cases hl : lead? b with
  | none => rfl
  | some l =>
    have hsplit : trail l.trailing l.low l.high r ++ r.drop (trail l.trailing l.low l.high r).length = r :=
      List.prefix_iff_eq_append.mp trail_prefix
    have hwhole : b :: trail l.trailing l.low l.high r ++
        r.drop (trail l.trailing l.low l.high r).length = b :: r := congrArg (b :: ·) hsplit
    dsimp only
    split
    · rename_i hlength
      rw [Segment.source, encodeChar_of_trail hl hlength]
      exact hwhole
    · exact hwhole

theorem source_segments (bs : Bytes) : (segments bs).flatMap Segment.source = bs := by
  -- A segment takes one byte or several, so the bytes have to be any fewer.
  induction hn : bs.length using Nat.strongRecOn generalizing bs with
  | ind n ih =>
    cases bs with
    | nil => rw [segments_nil, List.flatMap_nil]
    | cons b r =>
      have hlt : (segment b r).2.length < n := by
        rw [← hn]
        exact Nat.lt_succ_of_le (segment_length_le b r)
      rw [segments_cons, List.flatMap_cons, ih _ hlt _ rfl, source_segment]

end RespStore.Utf8

namespace RespStore.Text

theorem toBytes_ofBytes (bs : Bytes) : (ofBytes bs).toBytes = bs := by
  have hkept : (Utf8.segments bs).flatMap (fun s => s.kept.toBytes) =
      (Utf8.segments bs).flatMap Utf8.Segment.source :=
    congrArg (Utf8.segments bs).flatMap (funext Utf8.toBytes_kept)
  rw [ofBytes, toBytes, List.flatMap_assoc]
  exact hkept.trans (Utf8.source_segments bs)

theorem ofBytes_injective : Function.Injective ofBytes :=
  Function.LeftInverse.injective toBytes_ofBytes

end RespStore.Text
