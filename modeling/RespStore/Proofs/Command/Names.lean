import Mathlib.Data.Set.Operations
import RespStore.Proofs.Command.Origin

/-! Names byte for byte. What a request calls a key or a field is what every other request calls by the same bytes,
and nothing else; and what is told of the names that are there are the bytes they were given by. -/

namespace RespStore

open Keyspace Dispatch

theorem Text.exists_map_ofBytes {ts : List Text} (h : ∀ t ∈ ts, ∃ b, ofBytes b = t) :
    ∃ bs : List Bytes, bs.map ofBytes = ts := by
  induction ts with
  | nil => exact ⟨[], rfl⟩
  | cons t ts ih =>
    obtain ⟨b, hb⟩ := h t List.mem_cons_self
    obtain ⟨bs, hbs⟩ := ih fun t' ht' => h t' (List.mem_cons_of_mem t ht')
    exact ⟨b :: bs, by rw [List.map_cons, hb, hbs]⟩

def Fields.ofBytes (gvs : List (Bytes × Bytes)) : Fields := gvs.map fun gv => (.ofBytes gv.1, gv.2)

namespace Fields

variable {gvs : List (Bytes × Bytes)}

theorem exists_ofBytes {fs : Fields} (h : ∀ f ∈ fs.keys, ∃ g, Text.ofBytes g = f) :
    ∃ gvs, ofBytes gvs = fs := by
  induction fs with
  | nil => exact ⟨[], rfl⟩
  | cons f fs ih =>
    obtain ⟨g, hg⟩ := h f.1 List.mem_cons_self
    obtain ⟨gvs, hgvs⟩ := ih fun f' hf' => h f' (List.mem_cons_of_mem _ hf')
    refine ⟨(g, f.2) :: gvs, ?_⟩
    rw [ofBytes, List.map_cons, hg]
    exact congrArg (f :: ·) hgvs

theorem keys_ofBytes : (ofBytes gvs).keys = (gvs.map (·.1)).map Text.ofBytes := by
  rw [ofBytes, Bindings.keys, List.map_map, List.map_map]
  rfl

theorem mem_ofBytes {g v : Bytes} : (Text.ofBytes g, v) ∈ ofBytes gvs ↔ (g, v) ∈ gvs := by
  constructor
  · intro h
    obtain ⟨⟨g', v'⟩, hm, heq⟩ := List.mem_map.mp h
    obtain ⟨hg, rfl⟩ := Prod.mk.inj heq
    exact Text.ofBytes_injective hg ▸ hm
  · exact fun h => List.mem_map_of_mem h

end Fields

theorem Reply.ofTexts_map_ofBytes (bs : List Bytes) :
    Reply.ofTexts (bs.map Text.ofBytes) = .array (bs.map .bulk) := by
  rw [ofTexts, List.map_map]
  refine congrArg (fun f => Reply.array (bs.map f)) (funext fun b => ?_)
  exact congrArg Reply.bulk (Text.toBytes_ofBytes b)

theorem Reply.ofFields_ofBytes (gvs : List (Bytes × Bytes)) :
    Reply.ofFields (Fields.ofBytes gvs) = .array (gvs.flatMap fun gv => [.bulk gv.1, .bulk gv.2]) := by
  rw [ofFields, Fields.ofBytes, List.flatMap_map]
  refine congrArg (fun f => Reply.array (gvs.flatMap f)) (funext fun gv => ?_)
  rw [ofText, Text.toBytes_ofBytes]

namespace Moment

variable {m : Moment} {es : List Event} {b c f g v : Bytes}

/-- Requests tell keys apart, and fields, by their bytes. -/
structure Discerning (m : Moment) : Prop where
  addresses : ∀ r : Request, r.isGlobal = false →
    Touches m.now (r.keyArguments.map keyOf) fun s => perform m.now s r
  keeps : ∀ (r : Request) b, r.isGlobal = false → b ∉ r.keyArguments →
    (m.step (.request r)).keyspace.find? (keyOf b) = m.keyspace.find? (keyOf b)
  apart : ∀ r q : Request, r.isGlobal = false → q.isGlobal = false → r.Apart q →
    (dispatch m.now (m.step (.request r)).keyspace q).1 = (dispatch m.now m.keyspace q).1
  key : ∀ b v c, (m.step (.request (.of .set [b, v]))).reply .get [c] =
    if c = b then .ok (.bulk v) else m.reply .get [c]
  field : ∀ b f v c g, m.reply .hset [b, f, v] = .ok (.integer 1) →
    (m.step (.request (.of .hset [b, f, v]))).reply .hget [c, g] =
      if c = b ∧ g = f then .ok (.bulk v) else m.reply .hget [c, g]

theorem dispatch_step_of_apart {r q : Request} (hr : r.isGlobal = false) (hq : q.isGlobal = false)
    (h : r.Apart q) : (dispatch m.now (m.step (.request r)).keyspace q).1 = (dispatch m.now m.keyspace q).1 := by
  rw [step, dispatch_eq, dispatch_eq, dispatch_eq]
  exact congrArg told (perform_of_apart h hr hq m.keyspace)

section ByName

variable (c : Command) (args : List Bytes)

theorem isGlobal_of : (Request.of c args).isGlobal = c.isGlobal := by
  rw [Request.isGlobal, Request.command?_of]
  rfl

theorem namesFields_of : (Request.of c args).namesFields = c.namesFields := by
  rw [Request.namesFields, Request.command?_of]
  rfl

theorem keyArguments_of : (Request.of c args).keyArguments = c.keyArguments args := by
  rw [Request.keyArguments, Request.command?_of]
  rfl

theorem fieldArguments_of : (Request.of c args).fieldArguments = c.fieldArguments args := by
  rw [Request.fieldArguments, Request.command?_of]
  rfl

theorem keyspace_step_of {c : Command} {args : List Bytes} (h : c.admits args.length = true) :
    (m.step (.request (.of c args))).keyspace = (run m.now m.keyspace (.ofString c.name) c args).2 := by
  rw [step, dispatch_eq, perform_of _ _ h]

end ByName

theorem get_eq : m.reply .get [b] = told (trying .ofBytes? (m.keyspace.get m.now (keyOf b))).1 := reply_eq rfl

theorem hget_eq : m.reply .hget [b, g] =
    told (((fieldsOf (m.keyspace.live? m.now (keyOf b))).map (·.find? (.ofBytes g))).map .ofBytes?) := reply_eq rfl

theorem get_after_set (m : Moment) (b v c : Bytes) :
    (m.step (.request (.of .set [b, v]))).reply .get [c] = if c = b then .ok (.bulk v) else m.reply .get [c] := by
  by_cases h : c = b
  · have hlive : (m.step (.request (.of .set [b, v]))).keyspace.live? m.now (keyOf b) =
        some ⟨.string v, none⟩ := by
      rw [keyspace_step_of rfl]
      exact (live?_put _).trans (if_pos rfl)
    rw [if_pos h, h, get_eq]
    show told (trying .ofBytes? (Keyspace.get m.now (keyOf b) _)).1 = _
    rw [Keyspace.get, visit, hlive]
    rfl
  · rw [if_neg h]
    refine dispatch_step_of_apart (isGlobal_of .set _) (isGlobal_of .get _) (.inl ?_)
    intro d hd
    rw [keyArguments_of] at hd ⊢
    obtain rfl := List.mem_singleton.mp hd
    exact fun hb => h (List.mem_singleton.mp hb)

theorem admits_hset : Command.hset.admits [b, f, v].length = true := by
  show Command.hset.admits 3 = true
  decide

theorem fieldsOf_after_hset (h : m.reply .hset [b, f, v] = .ok (.integer 1)) :
    ∃ fs : Fields, fieldsOf ((m.step (.request (.of .hset [b, f, v]))).keyspace.live? m.now (keyOf b)) =
      .ok (fs.put (.ofBytes f) v) := by
  have hwise : FieldWise [Text.ofBytes f] (putVisit [(.ofBytes f, v)]) := fieldWise_put [(.ofBytes f, v)]
  rw [reply_eq admits_hset] at h
  obtain ⟨u, hu, -⟩ := exists_of_map_ok (ok_of_told h rfl)
  have hput : (putVisit [(.ofBytes f, v)] (m.keyspace.live? m.now (keyOf b))).1 = .ok u := hu
  have hlive : (m.step (.request (.of .hset [b, f, v]))).keyspace.live? m.now (keyOf b) =
      (putVisit [(.ofBytes f, v)] (m.keyspace.live? m.now (keyOf b))).2.left (m.keyspace.live? m.now (keyOf b)) := by
    rw [keyspace_step_of admits_hset]
    exact hwise.live?_visit m.now m.keyspace (keyOf b)
  rw [hlive]
  unfold putVisit at hput ⊢
  cases hx : fieldsOf (m.keyspace.live? m.now (keyOf b)) with
  | ok fs => exact ⟨fs, rfl⟩
  | error e =>
    rw [hx] at hput
    cases hput

theorem hget_after_hset (h : m.reply .hset [b, f, v] = .ok (.integer 1)) (c g : Bytes) :
    (m.step (.request (.of .hset [b, f, v]))).reply .hget [c, g] =
      if c = b ∧ g = f then .ok (.bulk v) else m.reply .hget [c, g] := by
  by_cases hn : c = b ∧ g = f
  · obtain ⟨fs, hfs⟩ := fieldsOf_after_hset h
    have hnow : (m.step (.request (.of .hset [b, f, v]))).now = m.now := rfl
    rw [if_pos hn, hn.1, hn.2, hget_eq, hnow, hfs]
    show told (.ok (.ofBytes? ((fs.put (.ofBytes f) v).find? (.ofBytes f)))) = _
    rw [Bindings.find?_put_self]
    rfl
  · rw [if_neg hn]
    refine dispatch_step_of_apart (isGlobal_of .hset _) (isGlobal_of .hget _) ?_
    by_cases hc : c = b
    · refine .inr ⟨namesFields_of .hset _, namesFields_of .hget _, fun d hd => ?_⟩
      rw [fieldArguments_of] at hd ⊢
      obtain rfl := List.mem_singleton.mp hd
      exact fun hf => hn ⟨hc, List.mem_singleton.mp hf⟩
    · refine .inl fun d hd => ?_
      rw [keyArguments_of] at hd ⊢
      obtain rfl := List.mem_singleton.mp hd
      exact fun hb => hc (List.mem_singleton.mp hb)

theorem discerning (m : Moment) : m.Discerning where
  addresses r hr := perform_touches hr
  keeps r b hr hb := by
    rw [step, dispatch_eq]
    exact find?_perform hr hb m.keyspace
  apart r q hr hq h := dispatch_step_of_apart hr hq h
  key := get_after_set m
  field b f v c g h := hget_after_hset h c g

/-- What is told of the names that are there: each once, byte for byte as some request gave it. -/
structure Reporting (es : List Event) (m : Moment) : Prop where
  keys : ∀ p, ∃ bs : List Bytes, m.reply .keys [p] = .ok (.array (bs.map .bulk)) ∧ bs.Nodup ∧
    ∀ b, b ∈ bs ↔ m.reply .exist [b] = .ok (.integer 1) ∧ Text.matchesGlob (.ofBytes p) (.ofBytes b) = true
  keyGiven : ∀ b, m.reply .exist [b] = .ok (.integer 1) → ∃ r, .request r ∈ es ∧ b ∈ r.createdKeys
  fields : ∀ b, (∀ c ∈ [Command.hkeys, .hgetall], m.reply c [b] = .ok (.error ReplyError.wrongType.line)) ∨
    ∃ gvs : List (Bytes × Bytes), m.reply .hkeys [b] = .ok (.array (gvs.map fun gv => .bulk gv.1)) ∧
      m.reply .hgetall [b] = .ok (.array (gvs.flatMap fun gv => [.bulk gv.1, .bulk gv.2])) ∧
      (gvs.map (·.1)).Nodup ∧ ∀ g v, (g, v) ∈ gvs ↔ m.reply .hget [b, g] = .ok (.bulk v)
  fieldGiven : ∀ b g v, m.reply .hget [b, g] = .ok (.bulk v) →
    ∃ r, .request r ∈ es ∧ b ∈ r.createdKeys ∧ g ∈ r.createdFields

theorem exist_eq : m.reply .exist [b] =
    .ok (.integer (if (m.keyspace.live? m.now (keyOf b)).isSome then 1 else 0)) := by
  rw [reply_eq rfl]
  show Except.ok (count (0 + (countOne (m.keyspace.live? m.now (keyOf b))).1)) = _
  cases m.keyspace.live? m.now (keyOf b) <;> rfl

theorem exist_iff : m.reply .exist [b] = .ok (.integer 1) ↔ ∃ e, m.keyspace.live? m.now (keyOf b) = some e := by
  rw [exist_eq, ← Option.isSome_iff_exists]
  cases m.keyspace.live? m.now (keyOf b) with
  | none => simp
  | some e => simp

theorem find?_of_live? {k : Text} {e : Entry} (h : m.keyspace.live? m.now k = some e) :
    m.keyspace.find? k = some e := (Option.filter_eq_some_iff.mp h).1

theorem Sourced.mem_createdKeys (hs : m.Sourced es) {e : Entry} (h : m.keyspace.find? (keyOf b) = some e) :
    ∃ r, .request r ∈ es ∧ b ∈ r.createdKeys := by
  obtain ⟨r, hr, b', hb', heq⟩ := hs.keys h
  exact ⟨r, hr, Text.ofBytes_injective heq ▸ hb'⟩

theorem keys_told (hm : m.Coherent) (hs : m.Sourced es) (p : Bytes) :
    ∃ bs : List Bytes, m.reply .keys [p] = .ok (.array (bs.map .bulk)) ∧ bs.Nodup ∧
      ∀ b, b ∈ bs ↔ m.reply .exist [b] = .ok (.integer 1) ∧
        Text.matchesGlob (.ofBytes p) (.ofBytes b) = true := by
  have hgiven : ∀ k ∈ m.keyspace.keysMatching m.now (.ofBytes p), ∃ b, Text.ofBytes b = k := by
    intro k hk
    obtain ⟨⟨e, he⟩, -⟩ := (mem_keysMatching hm.nodup).mp hk
    obtain ⟨r, -, b, -, hb⟩ := hs.keys (find?_of_live? he)
    exact ⟨b, hb⟩
  obtain ⟨bs, hbs⟩ := Text.exists_map_ofBytes hgiven
  have hnodup : (m.keyspace.keysMatching m.now (.ofBytes p)).Nodup := Bindings.nodup_filter hm.nodup
  refine ⟨bs, ?_, ?_, fun b => ?_⟩
  · have hkeys : m.reply .keys [p] = .ok (.ofTexts (m.keyspace.keysMatching m.now (.ofBytes p))) := reply_eq rfl
    rw [hkeys, ← hbs, Reply.ofTexts_map_ofBytes]
  · rw [← hbs] at hnodup
    exact hnodup.of_map
  · rw [exist_iff, keyOf, ← mem_keysMatching hm.nodup, ← hbs]
    exact (List.mem_map_of_injective Text.ofBytes_injective).symm

theorem hkeys_eq : m.reply .hkeys [b] =
    told (((fieldsOf (m.keyspace.live? m.now (keyOf b))).map id).map fun fs => .ofTexts fs.keys) := reply_eq rfl

theorem hgetall_eq : m.reply .hgetall [b] =
    told (((fieldsOf (m.keyspace.live? m.now (keyOf b))).map id).map .ofFields) := reply_eq rfl

theorem Coherent.nodup_fieldsOf (hm : m.Coherent) {k : Text} {fs : Fields}
    (hx : fieldsOf (m.keyspace.live? m.now k) = .ok fs) : fs.keys.Nodup := by
  cases he : m.keyspace.live? m.now k with
  | none =>
    rw [he] at hx
    obtain rfl := Except.ok.inj hx
    exact List.nodup_nil
  | some e =>
    have hwell : e.WellFormed := hm.wellFormed.live? he
    rw [he] at hx
    obtain ⟨v, d⟩ := e
    cases v with
    | hash gs =>
      obtain rfl := Except.ok.inj hx
      exact (fields_of_wellFormed hwell).2
    | string _ => cases hx
    | list _ => cases hx

theorem fieldsOf_error {x : Option Entry} {e : Failure} (h : fieldsOf x = .error e) : e = .refused .wrongType := by
  cases x with
  | none => cases h
  | some y =>
    obtain ⟨v, d⟩ := y
    cases v with
    | hash fs => cases h
    | string _ => exact (Except.error.inj h).symm
    | list _ => exact (Except.error.inj h).symm

theorem fields_told (hm : m.Coherent) (hs : m.Sourced es) (b : Bytes) :
    (∀ c ∈ [Command.hkeys, .hgetall], m.reply c [b] = .ok (.error ReplyError.wrongType.line)) ∨
      ∃ gvs : List (Bytes × Bytes), m.reply .hkeys [b] = .ok (.array (gvs.map fun gv => .bulk gv.1)) ∧
        m.reply .hgetall [b] = .ok (.array (gvs.flatMap fun gv => [.bulk gv.1, .bulk gv.2])) ∧
        (gvs.map (·.1)).Nodup ∧ ∀ g v, (g, v) ∈ gvs ↔ m.reply .hget [b, g] = .ok (.bulk v) := by
  cases hx : fieldsOf (m.keyspace.live? m.now (keyOf b)) with
  | error e =>
    left
    obtain rfl := fieldsOf_error hx
    intro c hc
    simp only [List.mem_cons, List.not_mem_nil, or_false] at hc
    rcases hc with rfl | rfl
    · rw [hkeys_eq, hx]
      rfl
    · rw [hgetall_eq, hx]
      rfl
  | ok fs =>
    right
    have hgiven : ∀ t ∈ fs.keys, ∃ g, Text.ofBytes g = t := by
      intro t ht
      obtain ⟨f, hf, rfl⟩ := List.mem_map.mp ht
      obtain ⟨e, he, hfe, -⟩ := exists_of_mem_fieldsOf hx hf
      obtain ⟨r, -, -, g, -, hg⟩ := hs.fields (find?_of_live? he) f.1 hfe
      exact ⟨g, hg⟩
    have hnodup : fs.keys.Nodup := hm.nodup_fieldsOf hx
    obtain ⟨gvs, rfl⟩ := Fields.exists_ofBytes hgiven
    refine ⟨gvs, ?_, ?_, ?_, fun g v => ?_⟩
    · rw [hkeys_eq, hx]
      show Except.ok (Reply.ofTexts (Fields.ofBytes gvs).keys) = _
      rw [Fields.keys_ofBytes, Reply.ofTexts_map_ofBytes, List.map_map]
      rfl
    · rw [hgetall_eq, hx]
      exact congrArg Except.ok (Reply.ofFields_ofBytes gvs)
    · rw [Fields.keys_ofBytes] at hnodup
      exact hnodup.of_map
    · rw [hget_eq, hx, ← Fields.mem_ofBytes, ← Bindings.find?_eq_some_iff hnodup]
      show _ ↔ Except.ok (Reply.ofBytes? ((Fields.ofBytes gvs).find? (.ofBytes g))) = _
      cases (Fields.ofBytes gvs).find? (.ofBytes g) with
      | none => simp [Reply.ofBytes?]
      | some v' => simp [Reply.ofBytes?]

theorem Sourced.mem_createdFields (hs : m.Sourced es) (h : m.reply .hget [b, g] = .ok (.bulk v)) :
    ∃ r, .request r ∈ es ∧ b ∈ r.createdKeys ∧ g ∈ r.createdFields := by
  rw [hget_eq] at h
  obtain ⟨x, hx, hbulk⟩ := exists_of_map_ok (ok_of_told h rfl)
  obtain ⟨fs, hfs, rfl⟩ := exists_of_map_ok hx
  cases hv : fs.find? (.ofBytes g) with
  | none =>
    rw [hv] at hbulk
    cases hbulk
  | some v' =>
    obtain ⟨e, he, hge, -⟩ := exists_of_mem_fieldsOf hfs (Bindings.mem_of_find? hv)
    obtain ⟨r, hr, ⟨b', hb', hbeq⟩, g', hg', hgeq⟩ := hs.fields (find?_of_live? he) _ hge
    exact ⟨r, hr, Text.ofBytes_injective hbeq ▸ hb', Text.ofBytes_injective hgeq ▸ hg'⟩

theorem reporting_after (now : Instant) (es : List Event) : ((Moment.mk now []).after es).Reporting es := by
  have hm : ((Moment.mk now []).after es).Coherent := coherent_after now es
  have hs : ((Moment.mk now []).after es).Sourced es := sourced_after now es
  constructor
  · exact keys_told hm hs
  · intro b hb
    obtain ⟨e, he⟩ := exist_iff.mp hb
    exact hs.mem_createdKeys (find?_of_live? he)
  · exact fields_told hm hs
  · exact fun b g v h => hs.mem_createdFields h

/-- Names are exact: reading them loses nothing, requests tell them apart by their bytes, and what is told of them
is the bytes they were given by. -/
theorem names_exact (now : Instant) (es : List Event) :
    let m := (Moment.mk now []).after es
    (∀ b : Bytes, (Text.ofBytes b).toBytes = b) ∧ Function.Injective Text.ofBytes ∧ m.Discerning ∧ m.Reporting es :=
  ⟨Text.toBytes_ofBytes, Text.ofBytes_injective, discerning _, reporting_after now es⟩

def strayNames : List Event := [.request (.of .hset [[255], [226, 130], [118]])]

theorem names_exact_strayNames :
    let m := (Moment.mk .zero []).after strayNames
    m.reply .hget [[255], [226, 130]] = .ok (.bulk [118]) ∧
      ∃ r, .request r ∈ strayNames ∧ [255] ∈ r.createdKeys ∧ [226, 130] ∈ r.createdFields := by
  have hstored : ((Moment.mk .zero []).after strayNames).keyspace =
      [([.stray 255], ⟨.hash [([.stray 226, .stray 130], [118])], none⟩)] := by decide +kernel
  have hkey : keyOf [255] = [.stray 255] := by decide +kernel
  have hfield : Text.ofBytes [226, 130] = [.stray 226, .stray 130] := by decide +kernel
  have hvalue : ((Moment.mk .zero []).after strayNames).reply .hget [[255], [226, 130]] = .ok (.bulk [118]) := by
    rw [hget_eq, hstored, hkey, hfield]
    rfl
  exact ⟨hvalue, (names_exact .zero strayNames).2.2.2.fieldGiven _ _ _ hvalue⟩

end Moment

end RespStore
