import RespStore.Proofs.Command.Names
import RespStore.Proofs.Command.Undisturbed
import RespStore.Proofs.Keyspace.Batches
import RespStore.Proofs.Keyspace.Chronicle

/-! Hashes that are written to. What is read of a hash that nobody else writes to is told by the writes to its fields
alone, one after another whatever requests they came in: each field that was written and not deleted since with its last
value, in the order in which the fields came to be there. -/

namespace RespStore

open Keyspace Dispatch

namespace Fields

variable {gvs : List (Bytes × Bytes)}

theorem find?_ofBytes (gvs : List (Bytes × Bytes)) (f : Bytes) :
    (ofBytes gvs).find? (.ofBytes f) = Bindings.find? f gvs := by
  induction gvs with
  | nil => rfl
  | cons gv gvs ih =>
    have hcons : ofBytes (gv :: gvs) = (Text.ofBytes gv.1, gv.2) :: ofBytes gvs := rfl
    rw [hcons, Bindings.find?_cons, Bindings.find?_cons, ih]
    simp only [Text.ofBytes_injective.eq_iff]

theorem put_ofBytes (gvs : List (Bytes × Bytes)) (f v : Bytes) :
    (ofBytes gvs).put (.ofBytes f) v = ofBytes (Bindings.put f v gvs) := by
  induction gvs with
  | nil => rfl
  | cons gv gvs ih =>
    have hcons : ofBytes (gv :: gvs) = (Text.ofBytes gv.1, gv.2) :: ofBytes gvs := rfl
    rw [hcons, Bindings.put, Bindings.put, ih]
    simp only [Text.ofBytes_injective.eq_iff]
    split <;> rfl

theorem erase_ofBytes (gvs : List (Bytes × Bytes)) (f : Bytes) :
    (ofBytes gvs).erase (.ofBytes f) = ofBytes (Bindings.erase f gvs) := by
  simp only [ofBytes, Bindings.erase, List.filter_map, Function.comp_def, ne_eq, Text.ofBytes_injective.eq_iff]

end Fields

namespace Keyspace

variable {now : Instant} {k : Text} {s : Keyspace} {fs : Fields}

theorem lasting_hash (h : fs ≠ []) : lasting (.hash fs) = some ⟨.hash fs, none⟩ := by
  cases fs with
  | nil => exact absurd rfl h
  | cons f fs => rfl

theorem left_storeFields (x : Option Entry) (fs : Fields) : (storeFields none fs).left x = lasting (.hash fs) := by
  cases fs <;> rfl

theorem putFields_lasting (h : s.live? now k = lasting (.hash fs)) {kvs : List (Text × Bytes)} (hne : kvs ≠ []) :
    (s.putFields now k kvs).2.live? now k = lasting (.hash (fs.putAll kvs)) := by
  have hput : s.putFields now k kvs = s.visit now k (putVisit kvs) := rfl
  have hvisit : putVisit kvs (s.live? now k) = (.ok (), .store ⟨.hash (fs.putAll kvs), none⟩) := by
    rw [h, putVisit, fieldsOf_lasting, bind_deadline_lasting]
  rw [hput, live?_visit, if_pos rfl, hvisit, lasting_hash (Bindings.putAll_ne_nil (.inr hne))]
  rfl

theorem deleteFields_lasting (h : s.live? now k = lasting (.hash fs)) (names : List Text) :
    (s.deleteFields now k names).2.live? now k = lasting (.hash (eraseFields names fs).2) := by
  have hdelete : s.deleteFields now k names = s.visit now k (eraseVisit names) := rfl
  have hleft : (eraseVisit names (lasting (.hash fs))).2.left (lasting (.hash fs)) =
      lasting (.hash (eraseFields names fs).2) := by
    cases fs with
    | nil =>
      rw [eraseFields_nil]
      rfl
    | cons f fs =>
      rw [lasting_hash (List.cons_ne_nil f fs), eraseVisit_hash]
      exact left_storeFields _ _
  rw [hdelete, live?_visit, if_pos rfl, h, hleft, filter_lasting]

theorem eraseFields_snd (names : List Text) (fs : Fields) :
    (eraseFields names fs).2 = names.foldl (fun fs f => fs.erase f) fs := by
  induction names generalizing fs with
  | nil => rfl
  | cons f names ih =>
    rw [eraseFields_cons, List.foldl_cons]
    split
    · exact ih (fs.erase f)
    · rename_i hnone
      have habsent : f ∉ fs.keys := by
        rw [← Bindings.find?_ne_none_iff]
        simpa using hnone
      rw [Bindings.erase_of_not_mem habsent]
      exact ih fs

end Keyspace

namespace Command

def puts : List Bytes → List (Write Bytes Bytes)
  | field :: data :: r => .put field data :: puts r
  | _ => []

def fieldWrites (args : List Bytes) : Command → List (Write Bytes Bytes)
  | hset | hmset => puts args
  | hdel => args.map .erase
  | _ => []

def writesFields : Command → Bool
  | hset | hmset | hdel => true
  | _ => false

end Command

theorem Fields.putAll_pairs (kvs : List Bytes) (gvs : List (Bytes × Bytes)) :
    (ofBytes gvs).putAll (pairs kvs) = ofBytes ((Command.puts kvs).foldl Write.applyTo gvs) := by
  fun_induction pairs kvs generalizing gvs with
  | case1 field data r ih =>
    rw [Bindings.putAll_cons, Fields.put_ofBytes, ih]
    rfl
  | case2 kvs h =>
    rw [Command.puts.eq_def]
    split
    · exact absurd rfl (h _ _ _)
    · rfl

theorem Fields.eraseFields_ofBytes (fs : List Bytes) (gvs : List (Bytes × Bytes)) :
    (eraseFields (fs.map .ofBytes) (ofBytes gvs)).2 = ofBytes ((fs.map Write.erase).foldl Write.applyTo gvs) := by
  rw [eraseFields_snd]
  induction fs generalizing gvs with
  | nil => rfl
  | cons f fs ih =>
    rw [List.map_cons, List.foldl_cons, Fields.erase_ofBytes, ih]
    rfl

namespace Request

def WritesFieldsOf (b : Bytes) (r : Request) : Prop :=
  ∃ c rest, r.command? = some c ∧ c.writesFields = true ∧ r.args = b :: rest ∧ c.admits r.args.length = true

def fieldWrites (b : Bytes) (r : Request) : List (Write Bytes Bytes) :=
  match r.command?, r.args with
  | some c, key :: args => if key = b then c.fieldWrites args else []
  | _, _ => []

theorem fieldWrites_of_spares {b : Bytes} {r : Request} (hr : r.Spares b) : r.fieldWrites b = [] := by
  unfold fieldWrites
  split
  · rename_i c key args hc hargs
    refine ite_eq_right_iff.mpr fun hkey => ?_
    have hchanges : c.changesPart = false := hr.changesPart hc (by rw [hargs, hkey, List.head?_cons])
    cases c <;> first | rfl | cases hchanges
  · rfl

end Request

theorem Dispatch.perform_writesFields {b : Bytes} {r : Request} (hr : r.WritesFieldsOf b) (now : Instant)
    (s : Keyspace) :
    (∃ kvs done, pairs kvs ≠ [] ∧ r.fieldWrites b = Command.puts kvs ∧
      perform now s r = trying (fun _ => done) (s.putFields now (keyOf b) (pairs kvs))) ∨
    (r.command? = some .hdel ∧ ∃ fs : List Bytes, r.fieldWrites b = fs.map .erase ∧
      perform now s r = trying count (s.deleteFields now (keyOf b) (fs.map .ofBytes))) := by
  obtain ⟨name, args⟩ := r
  obtain ⟨c, rest, hc, hwrites, hargs, hadmits⟩ := hr
  obtain rfl : args = b :: rest := hargs
  have hfields : Request.fieldWrites b ⟨name, b :: rest⟩ = c.fieldWrites rest := by
    rw [Request.fieldWrites, hc]
    exact if_pos rfl
  rw [perform_eq_run hc hadmits, hfields]
  cases c with
  | hset | hmset =>
    obtain ⟨hlength, -⟩ : 2 ≤ rest.length ∧ _ := by simpa [Command.admits, Command.leastArguments] using hadmits
    exact .inl ⟨rest, _, pairs_ne_nil hlength, rfl, rfl⟩
  | hdel => exact .inr ⟨hc, rest, rfl, rfl⟩
  | _ => cases hwrites

namespace Moment

open Write

variable {m : Moment} {b : Bytes} {es : List Event} {gvs : List (Bytes × Bytes)} {ws : List (Write Bytes Bytes)}

theorem authored_fields (b : Bytes) : Authored b (·.WritesFieldsOf b) (fun gvs => .hash (Fields.ofBytes gvs))
    fun gvs r => (r.fieldWrites b).foldl Write.applyTo gvs where
  spared gvs r hr := by
    rw [Request.fieldWrites_of_spares hr]
    rfl
  written m gvs r hr hlive := by
    rw [liveAt_request]
    rcases perform_writesFields hr m.now m.keyspace with ⟨kvs, done, hne, hputs, hrun⟩ | ⟨-, fs, herases, hrun⟩
    · rw [hrun, hputs, ← Fields.putAll_pairs]
      exact putFields_lasting hlive hne
    · rw [hrun, herases, ← Fields.eraseFields_ofBytes]
      exact deleteFields_lasting hlive _

def fieldHistory (b : Bytes) (es : List Event) : List (Write Bytes Bytes) := (requests es).flatMap (·.fieldWrites b)

theorem liveAt_written (hm : m.keyspace.keys.Nodup) (habsent : m.liveAt (keyOf b) = none) (hes : Forward m.now es)
    (honly : OnlyWrites b (·.WritesFieldsOf b) es) :
    (m.after es).liveAt (keyOf b) = lasting (.hash (Fields.ofBytes ((fieldHistory b es).foldl Write.applyTo []))) := by
  have hafter := (authored_fields b).liveAt_after hm hes honly (x := []) habsent
  rw [hafter, fieldHistory, List.foldl_flatMap]

structure HashReads (m : Moment) (b : Bytes) (ws : List (Write Bytes Bytes)) (names : List Bytes) : Prop where
  nodup : names.Nodup
  mem_iff : ∀ f, f ∈ names ↔ lastValue f ws ≠ none
  order : names.Pairwise (Older ws)
  hkeys : m.reply .hkeys [b] = .ok (.array (names.map .bulk))
  hvals : m.reply .hvals [b] = .ok (.array (names.map fun f => .ofBytes? (lastValue f ws)))
  hgetall : m.reply .hgetall [b] = .ok (.array (names.flatMap fun f => [.bulk f, .ofBytes? (lastValue f ws)]))
  hmget : ∀ f fs, m.reply .hmget (b :: f :: fs) =
    .ok (.array ((f :: fs).map fun g => .ofBytes? (lastValue g ws)))
  hget : ∀ f, m.reply .hget [b, f] = .ok (.ofBytes? (lastValue f ws))
  hexists : ∀ f, m.reply .hexists [b, f] = .ok (.ofBool (lastValue f ws).isSome)
  gone : names = [] → m.Gone b

theorem hvals_eq : m.reply .hvals [b] =
    told (((fieldsOf (m.keyspace.live? m.now (keyOf b))).map id).map fun fs => .ofBulks fs.values) := reply_eq rfl

theorem hexists_eq {f : Bytes} : m.reply .hexists [b, f] =
    told (((fieldsOf (m.keyspace.live? m.now (keyOf b))).map fun fs => (fs.find? (.ofBytes f)).isSome).map .ofBool) :=
  reply_eq rfl

theorem hmget_eq (f : Bytes) (fs : List Bytes) : m.reply .hmget (b :: f :: fs) =
    told (((fieldsOf (m.keyspace.live? m.now (keyOf b))).map fun gs =>
      ((f :: fs).map Text.ofBytes).map (gs.find? ·)).map fun vs => .array (vs.map .ofBytes?)) :=
  reply_eq (Command.admits_of_le rfl (Nat.le_add_left 2 _))

theorem hkeys_of_fields (h : fieldsOf (m.keyspace.live? m.now (keyOf b)) = .ok (Fields.ofBytes gvs)) :
    m.reply .hkeys [b] = .ok (.array ((Bindings.keys gvs).map .bulk)) := by
  rw [hkeys_eq, h]
  show Except.ok (Reply.ofTexts (Fields.ofBytes gvs).keys) = _
  rw [Fields.keys_ofBytes, Reply.ofTexts_map_ofBytes]
  rfl

theorem hashReads (hm : m.keyspace.keys.Nodup) (hlive : m.liveAt (keyOf b) = lasting (.hash (Fields.ofBytes gvs)))
    (h : Bindings.Chronicles ws gvs) : m.HashReads b ws (Bindings.keys gvs) := by
  have hfields : fieldsOf (m.keyspace.live? m.now (keyOf b)) = .ok (Fields.ofBytes gvs) := by
    rw [← fieldsOf_lasting, ← hlive, liveAt]
  have hfind : ∀ f, (Fields.ofBytes gvs).find? (.ofBytes f) = lastValue f ws := fun f => by
    rw [Fields.find?_ofBytes, h.find?_eq]
  constructor
  case nodup => exact h.nodup
  case mem_iff => exact fun f => h.mem_keys_iff
  case order => exact h.older
  case hkeys => exact hkeys_of_fields hfields
  case hvals =>
    rw [hvals_eq, hfields, ← h.map_values fun _ v => Reply.ofBytes? v]
    show Except.ok (Reply.array ((Fields.ofBytes gvs).values.map .bulk)) = _
    rw [Fields.ofBytes, Bindings.values, List.map_map, List.map_map]
    rfl
  case hgetall =>
    have hpairs := h.map_values fun f v => [Reply.bulk f, .ofBytes? v]
    rw [hgetall_eq, hfields, List.flatMap_def, ← hpairs]
    show Except.ok (Reply.ofFields (Fields.ofBytes gvs)) = _
    rw [Reply.ofFields_ofBytes, List.flatMap_def]
    rfl
  case hmget =>
    intro f fs
    rw [hmget_eq, hfields]
    show Except.ok (Reply.array ((((f :: fs).map Text.ofBytes).map ((Fields.ofBytes gvs).find? ·)).map .ofBytes?)) = _
    rw [List.map_map, List.map_map]
    have hvalues : Reply.ofBytes? ∘ ((Fields.ofBytes gvs).find? ·) ∘ Text.ofBytes =
        fun g => .ofBytes? (lastValue g ws) := funext fun g => congrArg Reply.ofBytes? (hfind g)
    exact congrArg (fun p => Except.ok (Reply.array ((f :: fs).map p))) hvalues
  case hget =>
    intro f
    rw [hget_eq, hfields, ← hfind]
    rfl
  case hexists =>
    intro f
    rw [hexists_eq, hfields, ← hfind]
    rfl
  case gone =>
    intro hnil
    obtain rfl : gvs = [] := List.map_eq_nil_iff.mp hnil
    exact gone_of_liveAt hm hlive

/-- Whatever is done elsewhere, a hash that was absent, and that is only asked for and written to field by field, reads
in every way as the history of its fields has it. -/
theorem fields_chronicled (hm : m.keyspace.keys.Nodup) (habsent : m.liveAt (keyOf b) = none) (hes : Forward m.now es)
    (honly : OnlyWrites b (·.WritesFieldsOf b) es) : ∃ names, (m.after es).HashReads b (fieldHistory b es) names :=
  ⟨_, hashReads (nodup_after hm hes) (liveAt_written hm habsent hes honly) (Bindings.chronicles_foldl _)⟩

def fieldsRewritten : List Event :=
  [.request (.of .hset [[104], [97], [49], [98], [50], [97], [51]]), .clock (.ofUnits false (2 * Binary64.one)),
    .request (.of .hset [[107], [97], [57]]), .request (.of .hdel [[104], [97], [99]]), .sweep,
    .request (.of .hmset [[104], [99], [52], [97], [53]]), .request (.of .hgetall [[104]])]

theorem fields_chronicled_fieldsRewritten :
    let m := (Moment.mk .zero []).after fieldsRewritten
    m.reply .hkeys [[104]] = .ok (.array [.bulk [98], .bulk [99], .bulk [97]]) ∧
      ∃ names, m.HashReads [104] (fieldHistory [104] fieldsRewritten) names := by
  have hforward : Forward .zero fieldsRewritten := ⟨by decide +kernel, trivial⟩
  have honly : OnlyWrites [104] (·.WritesFieldsOf [104]) fieldsRewritten := by
    intro e he
    simp only [fieldsRewritten, List.mem_cons, List.not_mem_nil, or_false] at he
    rcases he with rfl | rfl | rfl | rfl | rfl | rfl | rfl
    · exact .inr ⟨_, rfl, _, _, Request.command?_of .., rfl, rfl, by decide⟩
    · exact .inl trivial
    · exact .inl (.inl ⟨by decide, by decide⟩)
    · exact .inr ⟨_, rfl, _, _, Request.command?_of .., rfl, rfl, by decide⟩
    · exact .inl trivial
    · exact .inr ⟨_, rfl, _, _, Request.command?_of .., rfl, rfl, by decide⟩
    · exact .inl (.inr (by decide))
  have hstored : ((Moment.mk .zero []).after fieldsRewritten).liveAt (keyOf [104]) =
      some ⟨.hash (Fields.ofBytes [([98], [50]), ([99], [52]), ([97], [53])]), none⟩ := by decide +kernel
  refine ⟨hkeys_of_fields (congrArg fieldsOf hstored), ?_⟩
  exact fields_chronicled (m := ⟨.zero, []⟩) List.nodup_nil rfl hforward honly

end Moment

end RespStore
