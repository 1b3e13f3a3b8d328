import RespStore.Proofs.Command.Failure
import RespStore.Proofs.Command.Origin
import RespStore.Proofs.Wire.Patience

/-! What a reply is made of. Its bulks are arguments of this request or of those before it, and its texts are texts
that bytes are read as; so where every argument is within the limits, the reply can be sent. -/

namespace RespStore

open Keyspace Dispatch

namespace Text

theorem mem_of_stray_mem_ofText {b : UInt8} {after : Bool} {t : Text} (h : .stray b ∈ LowerCase.ofText after t) :
    .stray b ∈ t := by
  induction t generalizing after with
  | nil => exact h
  | cons g t ih =>
    rcases List.mem_append.mp h with hg | ht
    · cases g with
      | stray b' => exact List.mem_cons.mpr (.inl (List.mem_singleton.mp hg))
      | char c =>
        dsimp only at hg
        split at hg
        · cases List.mem_singleton.mp hg
        · obtain ⟨c', -, hc'⟩ := List.mem_map.mp hg
          cases hc'
    · exact List.mem_cons_of_mem g (ih ht)

theorem isDecoded_toLower {t : Text} (ht : t.IsDecoded) : t.toLower.IsDecoded :=
  fun b hb => ht b (mem_of_stray_mem_ofText hb)

end Text

namespace ReplyError

variable {e : ReplyError}

theorem isDecoded_line (h : e.message.IsDecoded) : e.line.IsDecoded := by
  have hcode : e.code.IsDecoded := by cases e <;> exact Text.isDecoded_ofChars _
  unfold line
  split
  · exact hcode
  · exact Text.isDecoded_append (Text.isDecoded_append hcode (Text.isDecoded_ofChars _)) h

theorem isDecoded_unknownCommand {name : Text} (h : name.IsDecoded) : (unknownCommand name).line.IsDecoded :=
  isDecoded_line (Text.isDecoded_append (Text.isDecoded_append (Text.isDecoded_ofChars _) h) (Text.isDecoded_ofChars _))

theorem isDecoded_wrongArity {name : Text} (h : name.IsDecoded) : (wrongArity name).line.IsDecoded :=
  isDecoded_line (Text.isDecoded_append
    (Text.isDecoded_append (Text.isDecoded_ofChars _) (Text.isDecoded_toLower h)) (Text.isDecoded_ofChars _))

end ReplyError

theorem Request.isDecoded_name_ofParts (parts : List Bytes) : (ofParts parts).name.IsDecoded := by
  cases parts with
  | nil => exact fun b hb => by cases hb
  | cons name args => exact Text.isDecoded_ofBytes name

structure Keyspace.Holds (Q : Bytes → Prop) (s : Keyspace) : Prop where
  nodup : s.keys.Nodup
  key : ∀ {k e}, s.find? k = some e → Q k.toBytes
  field : ∀ {k e}, s.find? k = some e → ∀ f ∈ e.fieldNames, Q f.toBytes
  content : ∀ {k e}, s.find? k = some e → ∀ v ∈ e.contents, Q v

variable {Q : Bytes → Prop} {now : Instant} {s : Keyspace} {r : Request}

namespace Request

theorem mem_args_of_mem_keyArguments {b : Bytes} (h : b ∈ r.keyArguments) : b ∈ r.args := by
  unfold keyArguments at h
  cases hc : r.command? with
  | none =>
    rw [hc] at h
    cases h
  | some c =>
    rw [hc] at h
    cases c <;> first | cases h | exact h | exact List.mem_of_mem_take h

theorem mem_args_of_mem_createdKeys {b : Bytes} (h : b ∈ r.createdKeys) : b ∈ r.args := by
  unfold createdKeys at h
  split at h
  · exact mem_args_of_mem_keyArguments h
  · cases h

theorem mem_of_mem_pairNames {kvs : List Bytes} {b : Bytes} (h : b ∈ Command.pairNames kvs) : b ∈ kvs := by
  fun_induction Command.pairNames kvs with
  | case1 field data rest ih =>
    rcases List.mem_cons.mp h with rfl | h
    · exact List.mem_cons_self
    · exact List.mem_cons_of_mem field (List.mem_cons_of_mem data (ih h))
  | case2 => cases h

theorem mem_args_of_mem_createdFields {b : Bytes} (h : b ∈ r.createdFields) : b ∈ r.args := by
  unfold createdFields at h
  cases hc : r.command? with
  | none =>
    rw [hc] at h
    cases h
  | some c =>
    rw [hc] at h
    cases c <;> first | cases h | exact List.mem_of_mem_drop (mem_of_mem_pairNames h)

end Request

namespace Keyspace

theorem holds_nil : Holds Q [] where
  nodup := List.nodup_nil
  key h := by cases h
  field h := by cases h
  content h := by cases h

theorem Holds.request (hs : s.Holds Q) (hr : ∀ b ∈ r.args, Q b) : (execute now s r).2.Holds Q := by
  have hnext : (execute now s r).2 = (perform now s r).2 := by rw [execute_eq]
  have hnodup : (perform now s r).2.keys.Nodup := by
    have hdispatch : (dispatch now s r).2.keys.Nodup := nodup_dispatch hs.nodup r
    rwa [dispatch_eq] at hdispatch
  rw [hnext]
  refine ⟨hnodup, fun h => ?_, fun h f hf => ?_, fun h v hv => ?_⟩
  · rcases key_origin h with ⟨e₀, he₀⟩ | ⟨b, hb, rfl⟩
    · exact hs.key he₀
    · rw [keyOf, Text.toBytes_ofBytes]
      exact hr b (Request.mem_args_of_mem_createdKeys hb)
  · rcases field_origin h hf with ⟨e₀, he₀, hf₀⟩ | ⟨-, g, hg, rfl⟩
    · exact hs.field he₀ f hf₀
    · rw [Text.toBytes_ofBytes]
      exact hr g (Request.mem_args_of_mem_createdFields hg)
  · rcases content_origin h hv with ⟨e₀, he₀, hv₀⟩ | harg
    · exact hs.content he₀ v hv₀
    · exact hr v harg

theorem Holds.sweep (hs : s.Holds Q) : (s.sweep now).2.Holds Q := by
  have hleft : ∀ {k e}, (s.sweep now).2.find? k = some e → s.find? k = some e := by
    intro k e h
    have hlive : s.live? now k = some e := (find?_liveEntries hs.nodup).symm.trans h
    exact (Option.filter_eq_some_iff.mp hlive).1
  exact ⟨Bindings.nodup_filter hs.nodup, fun h => hs.key (hleft h), fun h => hs.field (hleft h),
    fun h => hs.content (hleft h)⟩

end Keyspace

structure Worded (Q : Bytes → Prop) (x : Except Failure Reply) : Prop where
  reply : ∀ {r}, x = .ok r → r.Made Q
  refusal : ∀ {e}, x = .error (.refused e) → e.line.IsDecoded

theorem worded_ok {reply : Reply} (h : reply.Made Q) : Worded Q (.ok reply) where
  reply hr := Except.ok.inj hr ▸ h
  refusal he := by cases he

theorem worded_refused {e : ReplyError} (h : e.line.IsDecoded) : Worded Q (.error (.refused e)) where
  reply hr := by cases hr
  refusal he := by
    obtain rfl := Failure.refused.inj (Except.error.inj he)
    exact h

theorem worded_fault (f : Fault) : Worded Q (.error (.fault f)) where
  reply hr := by cases hr
  refusal he := by cases he

theorem made_ok : Reply.ok.Made Q := .status (Text.isDecoded_ofChars _)

theorem made_kindLine (k : Option Kind) : (kindLine k).Made Q := by
  cases k <;> exact .status (Text.isDecoded_ofChars _)

theorem made_ofBytes? {x : Option Bytes} (h : ∀ b, x = some b → Q b) : (Reply.ofBytes? x).Made Q := by
  cases x with
  | none => exact .null
  | some b => exact .bulk (h b rfl)

theorem made_array {α : Type} {xs : List α} {f : α → Reply} (h : ∀ x ∈ xs, (f x).Made Q) :
    (Reply.array (xs.map f)).Made Q := by
  refine .array fun r hr => ?_
  obtain ⟨x, hx, rfl⟩ := List.mem_map.mp hr
  exact h x hx

theorem Worded.made_told {x : Except Failure Reply} {reply : Reply} (hx : Worded Q x)
    (h : told x = .ok reply) : reply.Made Q := by
  match x, hx, h with
  | .ok r, hx, h => exact Except.ok.inj h ▸ hx.reply rfl
  | .error (.refused e), hx, h => exact Except.ok.inj h ▸ .error (hx.refusal rfl)

namespace Dispatch

variable {α : Type} {x : Except Failure α × Keyspace} {f : α → Reply} {name : Text} {args : List Bytes}

theorem isDecoded_wrongType : ReplyError.wrongType.line.IsDecoded :=
  ReplyError.isDecoded_line (Text.isDecoded_ofChars _)

theorem worded_trying (hx : s.Guarded x) (hf : ∀ a, x.1 = .ok a → (f a).Made Q) :
    Worded Q (trying f x).1 := by
  rw [trying]
  cases ha : x.1 with
  | ok a => exact worded_ok (hf a ha)
  | error e =>
    obtain ⟨rfl, -⟩ := hx e ha
    exact worded_refused isDecoded_wrongType

theorem worded_trying_of_fault (hx : ∀ e, x.1 = .error e → ∃ g, e = .fault g) (hf : ∀ a, (f a).Made Q) :
    Worded Q (trying f x).1 := by
  rw [trying]
  cases ha : x.1 with
  | ok a => exact worded_ok (hf a)
  | error e =>
    obtain ⟨g, rfl⟩ := hx e ha
    exact worded_fault g

theorem failure_of_integer {numeral : Bytes} {e : Failure} (h : Argument.integer numeral = .error e) :
    e = .refused .notAnInteger ∨ ∃ g, e = .fault g := by
  unfold Argument.integer at h
  split at h
  · exact .inl (Except.error.inj h).symm
  · exact .inr ⟨_, (Except.error.inj h).symm⟩
  · split at h
    · cases h
    · exact .inl (Except.error.inj h).symm

theorem worded_withInteger {numeral : Bytes} {f : Int → Outcome} (hf : ∀ n, Worded Q (f n).1) :
    Worded Q (withInteger numeral s f).1 := by
  unfold withInteger
  cases hn : Argument.integer numeral with
  | ok n => exact hf n
  | error e =>
    rcases failure_of_integer hn with rfl | ⟨g, rfl⟩
    · exact worded_refused (ReplyError.isDecoded_line (Text.isDecoded_ofChars _))
    · exact worded_fault g

theorem fault_of_deadlineAfter {n : Int} {e : Failure} (h : deadlineAfter now n = .error e) :
    ∃ g, e = .fault g := by
  -- Unfolded by itself, for next to its arguments the sum would be evaluated at once.
  generalize hf : deadlineAfter = f at h
  delta deadlineAfter at hf
  subst hf
  dsimp only at h
  cases ht : Binary64.ofInt? n with
  | none =>
    rw [ht] at h
    exact ⟨_, (Except.error.inj h).symm⟩
  | some t =>
    rw [ht] at h
    cases h

theorem fault_of_remaining {d : Instant} {e : Failure} (h : remaining now d = .error e) : ∃ g, e = .fault g := by
  unfold remaining at h
  split at h
  · cases h
  · exact ⟨_, (Except.error.inj h).symm⟩
  · exact ⟨_, (Except.error.inj h).symm⟩

theorem fault_of_expire {k : Text} {n : Int} (e : Failure) (h : (s.expire now k n).1 = .error e) :
    ∃ g, e = .fault g := by
  obtain ⟨y, -, hy⟩ := exists_live_of_error ⟨false, rfl⟩ h
  dsimp only at hy
  split at hy
  · cases hy
  · split at hy
    · cases hy
    · rename_i hd
      obtain rfl := Except.error.inj hy
      exact fault_of_deadlineAfter hd

theorem fault_of_timeToLive {k : Text} (e : Failure) (h : (s.timeToLive now k).1 = .error e) :
    ∃ g, e = .fault g := by
  obtain ⟨⟨v, d⟩, -, hy⟩ := exists_live_of_error ⟨-2, rfl⟩ h
  cases d with
  | none => cases hy
  | some d => exact fault_of_remaining hy

theorem fault_of_setWithLifetime {k : Text} {data : Bytes} {n : Int} (e : Failure)
    (h : (s.setWithLifetime now k data n).1 = .error e) : ∃ g, e = .fault g := by
  unfold Keyspace.setWithLifetime at h
  split at h
  · exact ⟨_, (Except.error.inj h).symm⟩
  · split at h
    · cases h
    · rename_i hd
      obtain rfl := Except.error.inj h
      exact fault_of_deadlineAfter hd

theorem worded_readFields (hs : s.Holds Q) {k : Text} {p : Fields → α}
    (hf : ∀ fs : Fields, (∀ f v, (f, v) ∈ fs → Q f.toBytes ∧ Q v) → (f (p fs)).Made Q) :
    Worded Q (trying f (s.readFields now k p)).1 := by
  refine worded_trying (guarded_readFields p) fun a ha => ?_
  obtain ⟨fs, hfs, rfl⟩ := exists_of_map_ok ha
  refine hf fs fun g v hg => ?_
  obtain ⟨e, he, hge, hve⟩ := exists_of_mem_fieldsOf hfs hg
  have hfind : s.find? k = some e := (Option.filter_eq_some_iff.mp he).1
  exact ⟨hs.field hfind g hge, hs.content hfind v hve⟩

theorem worded_get (hs : s.Holds Q) (k : Text) : Worded Q (trying .ofBytes? (s.get now k)).1 := by
  refine worded_trying guarded_get fun a ha => made_ofBytes? fun b hb => ?_
  subst hb
  cases he : s.live? now k with
  | none =>
    rw [Keyspace.get, visit, he] at ha
    cases ha
  | some e =>
    have hfind : s.find? k = some e := (Option.filter_eq_some_iff.mp he).1
    rw [Keyspace.get, visit, he] at ha
    obtain ⟨_ | _ | _, d⟩ := e
    · obtain rfl := Option.some.inj (Except.ok.inj ha)
      exact hs.content hfind _ List.mem_cons_self
    · cases ha
    · cases ha

theorem worded_listRange (hs : s.Holds Q) (k : Text) (i j : Int) :
    Worded Q (trying .ofBulks (s.listRange now k i j)).1 := by
  refine worded_trying (guarded_readItems _) fun a ha => ?_
  obtain ⟨items, hitems, rfl⟩ := exists_of_map_ok ha
  refine made_array fun b hb => .bulk ?_
  obtain ⟨e, he, hbe⟩ := exists_of_mem_itemsOf hitems (mem_of_mem_window hb)
  exact hs.content (Option.filter_eq_some_iff.mp he).1 b hbe

theorem made_keysMatching (hs : s.Holds Q) (p : Text) : (Reply.ofTexts (s.keysMatching now p)).Made Q := by
  refine made_array fun k hk => .bulk ?_
  obtain ⟨⟨e, he⟩, -⟩ := (mem_keysMatching hs.nodup).mp hk
  exact hs.key (Option.filter_eq_some_iff.mp he).1

theorem run_worded (hs : s.Holds Q) (hname : name.IsDecoded) (hargs : ∀ b ∈ args, Q b)
    (hpong : Q (.ofString "PONG")) (c : Command) : Worded Q (run now s name c args).1 := by
  cases shape c args with
  | few lacking refused =>
    rw [refused]
    exact worded_refused (ReplyError.isDecoded_wrongArity hname)
  | hello =>
    refine worded_ok (.array fun r hr => ?_)
    rw [List.mem_singleton.mp hr]
    exact .status (Text.isDecoded_ofChars _)
  | quit | flushdb | flushall | set => exact worded_ok made_ok
  | dbsize | del | exist | persist => exact worded_ok (.integer _)
  | pong => exact worded_ok (.bulk hpong)
  | ping data | echo data => exact worded_ok (.bulk (hargs data List.mem_cons_self))
  | keys pattern => exact worded_ok (made_keysMatching hs _)
  | setex key seconds data =>
    refine worded_withInteger fun n => ?_
    unfold setWithLifetime
    split
    · exact worded_refused (ReplyError.isDecoded_line (Text.isDecoded_ofChars _))
    · exact worded_trying_of_fault fault_of_setWithLifetime fun _ => made_ok
  | expire key seconds =>
    exact worded_withInteger fun n => worded_trying_of_fault fault_of_expire fun _ => .integer _
  | ttl key => exact worded_trying_of_fault fault_of_timeToLive fun _ => .integer _
  | type key => exact worded_ok (made_kindLine _)
  | get key => exact worded_get hs _
  | hset key kvs => exact worded_trying (guarded_putFields _) fun _ _ => .integer 1
  | hmset key kvs => exact worded_trying (guarded_putFields _) fun _ _ => made_ok
  | hdel key fields => exact worded_trying (guarded_deleteFields _) fun _ _ => .integer _
  | lpush key data | rpush key data => exact worded_trying (guarded_changeItems _) fun _ _ => .integer _
  | llen key => exact worded_trying (guarded_readItems _) fun _ _ => .integer _
  | lrange key start stop =>
    exact worded_withInteger fun i => worded_withInteger fun j => worded_listRange hs _ i j
  | hexists key field => exact worded_readFields hs fun _ _ => .integer _
  | hget key field =>
    refine worded_readFields hs fun fs hfs => made_ofBytes? fun b hb => ?_
    exact (hfs _ b (Bindings.mem_of_find? hb)).2
  | hmget key fields =>
    refine worded_readFields hs fun fs hfs => made_array fun x hx => made_ofBytes? fun b hb => ?_
    obtain ⟨f, -, hf⟩ := List.mem_map.mp hx
    exact (hfs f b (Bindings.mem_of_find? (hf.trans hb))).2
  | hkeys key =>
    refine worded_readFields hs fun fs hfs => made_array fun t ht => .bulk ?_
    obtain ⟨f, hf, rfl⟩ := List.mem_map.mp ht
    exact (hfs f.1 f.2 hf).1
  | hvals key =>
    refine worded_readFields hs fun fs hfs => made_array fun v hv => .bulk ?_
    obtain ⟨f, hf, rfl⟩ := List.mem_map.mp hv
    exact (hfs f.1 f.2 hf).2
  | hgetall key =>
    refine worded_readFields hs fun fs hfs => .array fun r hr => ?_
    obtain ⟨f, hf, hr⟩ := List.mem_flatMap.mp hr
    obtain ⟨hname, hvalue⟩ := hfs f.1 f.2 hf
    rcases List.mem_cons.mp hr with rfl | hr
    · exact .bulk hname
    · obtain rfl := List.mem_singleton.mp hr
      exact .bulk hvalue

end Dispatch

/-- What a request comes to is made of its arguments and of what the keyspace holds. -/
theorem execute_made (hs : s.Holds Q) (hname : r.name.IsDecoded) (hargs : ∀ b ∈ r.args, Q b)
    (hpong : Q (.ofString "PONG")) : (execute now s r).1.Made Q := by
  have hworded : Worded Q (perform now s r).1 := by
    unfold perform
    cases Command.ofText? r.name with
    | none => exact worded_refused (ReplyError.isDecoded_unknownCommand hname)
    | some c =>
      dsimp only
      split
      · exact run_worded hs hname hargs hpong c
      · exact worded_refused (ReplyError.isDecoded_wrongArity hname)
  rw [execute_eq]
  cases ht : told (perform now s r).1 with
  | ok reply => exact hworded.made_told ht
  | error f => exact .error (Text.isDecoded_ofChars _)

theorem Reply.Made.sendable {reply : Reply} (h : reply.Made Q) (hf : reply.Fits {})
    (hQ : ∀ b, Q b → b.length ≤ 512 * 1024 * 1024) : reply.Sendable {} := by
  have hlarge : 512 * 1024 * 1024 < 10 ^ Numeral.maxDigits := by decide +kernel
  induction h with
  | status ht => exact .status ht
  | error ht => exact .error ht
  | integer n =>
    cases hf with
    | integer hn => exact .integer (Numeral.readable_iff.mpr hn)
  | bulk hd =>
    have hl := hQ _ hd
    exact .bulk (by simpa using hl) (Numeral.readable_iff.mpr (by omega))
  | null => exact .null
  | @array items _ ih =>
    cases hf with
    | array hl hi =>
      have hcount : items.length ≤ 1024 * 1024 := by simpa using hl
      exact .array hl (Numeral.readable_iff.mpr (by omega)) fun r hr => ih r hr (hi r hr)

end RespStore
