import RespStore.Proofs.Command.Touch
import RespStore.Proofs.Glob
import RespStore.Proofs.Text.Boundaries

/-! Keys listed by a pattern. Patterns and keys are compared as texts, and a client knows them as bytes. A key that is
listed matches in its bytes too. The other way round, the pieces of a pattern in UTF-8 are characters wherever they
stand in a key, so what matches in bytes is found in the text, broken as the rest of the key may be. -/

namespace RespStore

namespace Text

def starByte : UInt8 := 42

theorem not_mem_toBytes {t : Text} (ht : t.IsDecoded) {g : Glyph} (hg : g ∈ t) (hne : g ≠ star) :
    starByte ∉ g.toBytes := by
  intro hb
  cases g with
  | char c =>
    have hc : c.toNat = '*'.toNat := Utf8.toNat_of_mem_encodeChar hb (by decide)
    exact hne (congrArg Glyph.char (Char.ext (UInt32.toNat_inj.mp hc)))
  | stray b =>
    obtain rfl := List.mem_singleton.mp hb
    exact absurd (ht _ hg) (by decide)

theorem partedBy_toBytes {t : Text} (ht : t.IsDecoded) {ps : List Text} (h : Pieces.PartedBy star ps t) :
    Pieces.PartedBy starByte (ps.map toBytes) t.toBytes :=
  h.flatMap (by decide) fun _ hg hne => not_mem_toBytes ht hg hne

theorem partedBy_ofChars {cs : List Char} {qs : List (List Char)} (h : Pieces.PartedBy '*' qs cs) :
    Pieces.PartedBy star (qs.map ofChars) (ofChars cs) := by
  have hchars : ofChars = fun ds => ds.flatMap fun c => [Glyph.char c] := funext fun ds => List.map_eq_flatMap
  rw [hchars]
  exact h.flatMap rfl fun c _ hne hc => hne (Glyph.char.inj (List.mem_singleton.mp hc)).symm

/-- A key is a pattern with runs of bytes in place of its stars. -/
def MatchesBytes (pattern key : Bytes) : Prop :=
  ∃ pieces, Pieces.PartedBy starByte pieces pattern ∧ Glob.Covers pieces key

theorem matchesBytes_of_matchesGlob {p : Bytes} {k : Text} (h : matchesGlob (ofBytes p) k = true) :
    MatchesBytes p k.toBytes := by
  obtain ⟨ps, hps, hk⟩ := Glob.accepts_iff.mp h
  have hbytes := partedBy_toBytes (isDecoded_ofBytes p) hps
  rw [toBytes_ofBytes] at hbytes
  exact ⟨ps.map toBytes, hbytes, hk.flatMap Glyph.toBytes⟩

theorem exists_covers_rest {qs : List (List Char)} {k : Bytes}
    (h : Glob.Covers (qs.map fun cs => (ofChars cs).toBytes) k) (x : Bytes) :
    ∃ t u, ofBytes (x ++ k) = t ++ u ∧ Glob.Covers (qs.map ofChars) u := by
  induction qs generalizing x k with
  | nil => exact absurd rfl h.ne_nil
  | cons cs qs ih =>
    cases qs with
    | nil =>
      obtain rfl := Glob.covers_singleton_iff.mp h
      by_cases hcs : cs = []
      · exact ⟨_, [], (List.append_nil _).symm, hcs ▸ .single []⟩
      · have hread := ofBytes_append_chars x hcs []
        rw [List.append_nil, ofBytes_nil, List.append_nil] at hread
        exact ⟨_, ofChars cs, hread, .single _⟩
    | cons ds ds' =>
      obtain ⟨y, v, rfl, hv⟩ := (Glob.covers_cons_iff (List.cons_ne_nil _ _)).mp h
      by_cases hcs : cs = []
      · -- Nothing marks where an empty piece stands, so it is placed right before the next one.
        obtain ⟨t, u, hread, hu⟩ := ih hv (x ++ y)
        have hcovers : Glob.Covers ((cs :: ds :: ds').map ofChars) u :=
          (Glob.covers_cons_iff (List.cons_ne_nil _ _)).mpr ⟨[], u, by rw [hcs]; rfl, hu⟩
        refine ⟨t, u, ?_, hcovers⟩
        rw [hcs, ← hread, List.append_assoc]
        rfl
      · obtain ⟨t, u, hread, hu⟩ := ih hv y
        have hcovers : Glob.Covers ((cs :: ds :: ds').map ofChars) (ofChars cs ++ (t ++ u)) :=
          (Glob.covers_cons_iff (List.cons_ne_nil _ _)).mpr ⟨t, u, rfl, hu⟩
        exact ⟨ofBytes x, _, by rw [ofBytes_append_chars x hcs, hread], hcovers⟩

theorem covers_ofBytes {qs : List (List Char)} {k : Bytes} (h : Glob.Covers (qs.map fun cs => (ofChars cs).toBytes) k) :
    Glob.Covers (qs.map ofChars) (ofBytes k) := by
  cases qs with
  | nil => exact absurd rfl h.ne_nil
  | cons cs qs =>
    cases qs with
    | nil =>
      obtain rfl := Glob.covers_singleton_iff.mp h
      exact Glob.covers_singleton_iff.mpr (ofBytes_chars cs)
    | cons ds qs =>
      obtain ⟨x, v, rfl, hv⟩ := (Glob.covers_cons_iff (List.cons_ne_nil _ _)).mp h
      obtain ⟨t, u, hread, hu⟩ := @exists_covers_rest (ds :: qs) v hv x
      rw [ofBytes_append_of_chars, hread]
      exact (Glob.covers_cons_iff (List.cons_ne_nil _ _)).mpr ⟨t, u, rfl, hu⟩

theorem matchesGlob_of_matchesBytes {cs : List Char} {k : Bytes} (h : MatchesBytes (ofChars cs).toBytes k) :
    matchesGlob (ofBytes (ofChars cs).toBytes) (ofBytes k) = true := by
  obtain ⟨pieces, hp, hk⟩ := h
  have hchars := partedBy_ofChars (Pieces.partedBy_split '*' cs)
  have hbytes := partedBy_toBytes (isDecoded_ofChars cs) hchars
  rw [hp.eq_split, ← hbytes.eq_split, List.map_map] at hk
  rw [ofBytes_chars]
  exact Glob.accepts_iff.mpr ⟨_, hchars, covers_ofBytes hk⟩

end Text

namespace Dispatch

variable {now : Instant} {s : Keyspace} {r : Request} {p : Bytes} {more : List Bytes}

theorem admits_keys (p : Bytes) (more : List Bytes) : Command.admits .keys (p :: more).length = true := by
  simp [Command.admits, Command.leastArguments, Command.takesPairs]

theorem dispatch_keys (hr : r.command? = some .keys) (hargs : r.args = p :: more) :
    dispatch now s r = (.ok (.array (((s.keysMatching now (.ofBytes p)).map Text.toBytes).map .bulk)), s) := by
  have hname : Command.ofText? r.name = some .keys := hr
  have hperform : perform now s r = (.ok (.ofTexts (s.keysMatching now (.ofBytes p))), s) := by
    simp only [perform, hname, hargs, admits_keys]
    rfl
  rw [dispatch_eq, hperform, Reply.ofTexts, List.map_map]
  rfl

/-- Every key that is listed matches the pattern in its bytes; and if the pattern is UTF-8, every live key that matches
in its bytes is listed, whether it is UTF-8 itself or not. -/
theorem keys_bytewise (now : Instant) (s : Keyspace) {r : Request} {p : Bytes} {more : List Bytes}
    (hr : r.command? = some .keys) (hargs : r.args = p :: more) :
    ∃ listed : List Bytes, dispatch now s r = (.ok (.array (listed.map .bulk)), s) ∧
      (∀ k ∈ listed, Text.MatchesBytes p k) ∧
      ∀ cs : List Char, (Text.ofChars cs).toBytes = p → ∀ (k : Bytes) (e : Entry), s.live? now (keyOf k) = some e →
        (k ∈ listed ↔ Text.MatchesBytes p k) := by
  have hlisted : ∀ k ∈ (s.keysMatching now (.ofBytes p)).map Text.toBytes, Text.MatchesBytes p k := by
    intro k hk
    obtain ⟨t, ht, rfl⟩ := List.mem_map.mp hk
    obtain ⟨f, hf, rfl⟩ := List.mem_map.mp ht
    exact Text.matchesBytes_of_matchesGlob (Bool.and_eq_true_iff.mp (List.mem_filter.mp hf).2).2
  refine ⟨_, dispatch_keys hr hargs, hlisted, ?_⟩
  rintro cs rfl k e he
  refine ⟨hlisted k, fun hk => List.mem_map.mpr ⟨keyOf k, ?_, Text.toBytes_ofBytes k⟩⟩
  exact Keyspace.mem_keysMatching_of_live he (Text.matchesGlob_of_matchesBytes hk)

def brokenKey : Bytes := [195, 169, 255]

theorem keys_bytewise_brokenKey :
    ∃ listed : List Bytes,
      dispatch .zero [(keyOf brokenKey, ⟨.string [], none⟩)] ⟨.ofString "KEYS", [[195, 169, 42]]⟩ =
          (.ok (.array (listed.map .bulk)), [(keyOf brokenKey, ⟨.string [], none⟩)]) ∧
        brokenKey ∈ listed := by
  obtain ⟨listed, hreply, -, hiff⟩ := keys_bytewise .zero [(keyOf brokenKey, ⟨.string [], none⟩)]
    (r := ⟨.ofString "KEYS", [[195, 169, 42]]⟩) (Command.ofText?_name .keys) rfl
  refine ⟨listed, hreply, (hiff ['é', '*'] (by decide) brokenKey ⟨.string [], none⟩ (by decide +kernel)).mpr ?_⟩
  exact ⟨[[195, 169], []], ⟨by decide, by decide, rfl⟩, @Glob.Covers.star _ [195, 169] [255] [] [[]] (.single [])⟩

end Dispatch

end RespStore
