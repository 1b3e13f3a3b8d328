import RespStore.Proofs.Command.Locality
import RespStore.Proofs.Command.Representation

/-! Where things come from. A key that stands in the keyspace was named, byte for byte, by a request that stores a
value, a field by a request that stores fields under that key, and a value was an argument of some request. -/

namespace RespStore

open Keyspace

namespace Command

def creates : Command → Bool
  | set | setex | hset | hmset | lpush | rpush => true
  | _ => false

def createdFields (args : List Bytes) : Command → List Bytes
  | hset | hmset => pairNames (args.drop 1)
  | _ => []

end Command

namespace Request

def createdKeys (r : Request) : List Bytes := if r.command?.any (·.creates) then r.keyArguments else []

def createdFields (r : Request) : List Bytes := (r.command?.map (·.createdFields r.args)).getD []

end Request

def Entry.fieldNames (e : Entry) : List Text :=
  match e.value with
  | .hash fs => fs.keys
  | _ => []

def Entry.contents (e : Entry) : List Bytes :=
  match e.value with
  | .string data => [data]
  | .hash fs => fs.values
  | .list items => items

namespace Bindings

variable {α β : Type} [DecidableEq α] {s : Bindings α β} {k j : α} {v w : β} {kvs : List (α × β)}

theorem mem_keys_putAll (h : k ∈ (putAll kvs s).keys) : k ∈ s.keys ∨ k ∈ kvs.map (·.1) := by
  induction kvs generalizing s with
  | nil => exact .inl h
  | cons kv kvs ih =>
    rcases ih h with hs | hk
    · rcases mem_keys_put.mp hs with rfl | hs
      · exact .inr List.mem_cons_self
      · exact .inl hs
    · exact .inr (List.mem_cons_of_mem _ hk)

theorem mem_values_put (h : w ∈ (put k v s).values) : w = v ∨ w ∈ s.values := by
  induction s with
  | nil => exact .inl (List.mem_singleton.mp h)
  | cons p s ih =>
    rw [put] at h
    split at h
    · rcases List.mem_cons.mp h with rfl | h
      · exact .inl rfl
      · exact .inr (List.mem_cons_of_mem _ h)
    · rcases List.mem_cons.mp h with rfl | h
      · exact .inr List.mem_cons_self
      · exact (ih h).imp_right (List.mem_cons_of_mem _)

theorem mem_values_putAll (h : w ∈ (putAll kvs s).values) : w ∈ s.values ∨ w ∈ kvs.map (·.2) := by
  induction kvs generalizing s with
  | nil => exact .inl h
  | cons kv kvs ih =>
    rcases ih h with hs | hk
    · rcases mem_values_put hs with rfl | hs
      · exact .inr List.mem_cons_self
      · exact .inl hs
    · exact .inr (List.mem_cons_of_mem _ hk)

end Bindings

namespace Keyspace

variable {now : Instant} {creates : Bool} {names : List Text} {data : List Bytes} {x y : Option Entry}
  {s : Keyspace} {j k : Text}

theorem eraseFields_sublist (fields : List Text) (fs : Fields) : (eraseFields fields fs).2.Sublist fs := by
  induction fields generalizing fs with
  | nil => exact List.Sublist.refl fs
  | cons g fields ih =>
    rw [eraseFields_cons]
    split
    · exact (ih _).trans List.filter_sublist
    · exact ih fs

/-- What is found where `x` was, if nothing was added but perhaps an entry, these fields and these values. -/
structure Grows (creates : Bool) (names : List Text) (data : List Bytes) (x y : Option Entry) : Prop where
  entry : y.isSome → x.isSome ∨ creates = true
  fields : ∀ e ∈ y, ∀ f ∈ e.fieldNames, (∃ e₀ ∈ x, f ∈ e₀.fieldNames) ∨ f ∈ names
  contents : ∀ e ∈ y, ∀ v ∈ e.contents, (∃ e₀ ∈ x, v ∈ e₀.contents) ∨ v ∈ data

theorem Grows.refl (x : Option Entry) : Grows creates names data x x where
  entry h := .inl h
  fields e he _ hf := .inl ⟨e, he, hf⟩
  contents e he _ hv := .inl ⟨e, he, hv⟩

theorem Grows.none (x : Option Entry) : Grows creates names data x none where
  entry h := by cases h
  fields e he := by cases he
  contents e he := by cases he

theorem Grows.trans {z : Option Entry} (h : Grows creates names data x y) (h' : Grows creates names data y z) :
    Grows creates names data x z where
  entry hz := (h'.entry hz).elim h.entry .inr
  fields e he f hf := by
    rcases h'.fields e he f hf with ⟨e₀, he₀, hf₀⟩ | hn
    · exact h.fields e₀ he₀ f hf₀
    · exact .inr hn
  contents e he v hv := by
    rcases h'.contents e he v hv with ⟨e₀, he₀, hv₀⟩ | hn
    · exact h.contents e₀ he₀ v hv₀
    · exact .inr hn

theorem grows_of_filter (p : Entry → Bool) (x : Option Entry) : Grows creates names data x (x.filter p) := by
  cases x with
  | none => exact .refl _
  | some e =>
    rw [Option.filter_some]
    split
    · exact .refl _
    · exact .none _

theorem Grows.redated {v : Value} {old : Option Instant} (new : Option Instant) :
    Grows creates names data (some ⟨v, old⟩) (some ⟨v, new⟩) where
  entry _ := .inl rfl
  fields e he f hf := by
    obtain rfl := Option.some.inj he
    exact .inl ⟨_, rfl, hf⟩
  contents e he w hw := by
    obtain rfl := Option.some.inj he
    exact .inl ⟨_, rfl, hw⟩

theorem Grows.plain {e : Entry} (he : e.fieldNames = [])
    (hv : ∀ v ∈ e.contents, (∃ e₀ ∈ x, v ∈ e₀.contents) ∨ v ∈ data) : Grows true names data x (some e) where
  entry _ := .inr rfl
  fields e' he' f hf := by
    obtain rfl := Option.some.inj he'
    rw [he] at hf
    cases hf
  contents e' he' := by
    obtain rfl := Option.some.inj he'
    exact hv

theorem grows_put {b : Bytes} (hb : b ∈ data) (d : Option Instant) (s : Keyspace) (j : Text) :
    Grows true names data (s.find? j) (Bindings.find? j (s.put k ⟨.string b, d⟩)) := by
  by_cases h : j = k
  · rw [h, Bindings.find?_put_self]
    refine .plain rfl fun v hv => .inr ?_
    obtain rfl := List.mem_singleton.mp hv
    exact hb
  · rw [Bindings.find?_put_of_ne h]
    exact .refl _

def Adds {α : Type} (creates : Bool) (names : List Text) (data : List Bytes) (f : Option Entry → α × Change) : Prop :=
  ∀ x, Grows creates names data x ((f x).2.left x)

variable {α : Type} {f : Option Entry → α × Change}

theorem adds_of_keep (hf : ∀ x, (f x).2 = .keep) : Adds creates names data f := by
  intro x
  rw [hf x]
  exact .refl x

theorem Adds.visit (hf : Adds creates names data f) (s : Keyspace) (j : Text) :
    Grows creates names data (s.find? j) ((s.visit now k f).2.find? j) := by
  rw [find?_visit]
  split
  · rename_i h
    rw [h]
    exact (grows_of_filter _ _).trans (hf _)
  · exact .refl _

theorem Adds.visitEach {f : Option Entry → Nat × Change} (hf : Adds creates names data f) (ks : List Text)
    (s : Keyspace) (j : Text) : Grows creates names data (s.find? j) ((s.visitEach now f ks).2.find? j) := by
  induction ks generalizing s with
  | nil => exact .refl _
  | cons k ks ih =>
    rw [visitEach_cons]
    exact (hf.visit s j).trans (ih _)

theorem adds_dropOne : Adds creates names data dropOne := by
  rintro (_ | e)
  · exact .refl _
  · exact .none _

theorem adds_countOne : Adds creates names data countOne := adds_of_keep (by rintro (_ | e) <;> rfl)

theorem adds_put {kvs : List (Text × Bytes)} (hdata : ∀ v ∈ kvs.map (·.2), v ∈ data) :
    Adds true (kvs.map (·.1)) data (putVisit kvs) := by
  intro x
  unfold putVisit
  match x with
  | none =>
    refine ⟨fun _ => .inr rfl, fun e he f hf => ?_, fun e he v hv => ?_⟩
    · obtain rfl := Option.some.inj he
      rcases Bindings.mem_keys_putAll hf with hs | hk
      · cases hs
      · exact .inr hk
    · obtain rfl := Option.some.inj he
      rcases Bindings.mem_values_putAll hv with hs | hk
      · cases hs
      · exact .inr (hdata v hk)
  | some ⟨.hash fs, d⟩ =>
    refine ⟨fun _ => .inr rfl, fun e he f hf => ?_, fun e he v hv => ?_⟩
    · obtain rfl := Option.some.inj he
      exact (Bindings.mem_keys_putAll hf).imp_left fun hs => ⟨_, rfl, hs⟩
    · obtain rfl := Option.some.inj he
      rcases Bindings.mem_values_putAll hv with hs | hk
      · exact .inl ⟨_, rfl, hs⟩
      · exact .inr (hdata v hk)
  | some ⟨.string _, _⟩ | some ⟨.list _, _⟩ => exact .refl _

theorem adds_erase (fields : List Text) : Adds creates names data (eraseVisit fields) := by
  intro x
  match x with
  | none => exact .refl _
  | some ⟨.string _, _⟩ | some ⟨.list _, _⟩ => exact .refl _
  | some ⟨.hash fs, d⟩ =>
    rw [eraseVisit]
    split
    · exact .none _
    · rename_i n rest _ h
      have hrest : rest.Sublist fs := by
        have hleft : (eraseFields fields fs).2 = rest := congrArg Prod.snd h
        exact hleft ▸ eraseFields_sublist fields fs
      refine ⟨fun _ => .inl rfl, fun e he f hf => .inl ⟨_, rfl, ?_⟩, fun e he v hv => .inl ⟨_, rfl, ?_⟩⟩
      · obtain rfl := Option.some.inj he
        exact (hrest.map Prod.fst).subset hf
      · obtain rfl := Option.some.inj he
        exact (hrest.map Prod.snd).subset hv

theorem grows_readFields (p : Fields → α) (s : Keyspace) (j : Text) :
    Grows creates names data (s.find? j) ((s.readFields now k p).2.find? j) :=
  (adds_of_keep fun _ => rfl).visit s j

theorem grows_readItems (p : List Bytes → α) (s : Keyspace) (j : Text) :
    Grows creates names data (s.find? j) ((s.readItems now k p).2.find? j) :=
  (adds_of_keep fun _ => rfl).visit s j

theorem grows_typeOf (s : Keyspace) (j : Text) :
    Grows creates names data (s.find? j) ((s.typeOf now k).2.find? j) :=
  (adds_of_keep fun _ => rfl).visit s j

theorem grows_get (s : Keyspace) (j : Text) : Grows creates names data (s.find? j) ((s.get now k).2.find? j) := by
  refine Adds.visit (adds_of_keep fun x => ?_) s j
  rcases x with _ | ⟨_ | _ | _, d⟩ <;> rfl

theorem grows_timeToLive (s : Keyspace) (j : Text) :
    Grows creates names data (s.find? j) ((s.timeToLive now k).2.find? j) := by
  refine Adds.visit (adds_of_keep fun x => ?_) s j
  rcases x with _ | ⟨v, _ | d⟩ <;> rfl

theorem exists_of_mem_itemsOf {items : List Bytes} (hx : itemsOf x = .ok items) {v : Bytes} (hv : v ∈ items) :
    ∃ e, x = some e ∧ v ∈ e.contents := by
  cases x with
  | none =>
    obtain rfl := Except.ok.inj hx
    cases hv
  | some e =>
    obtain ⟨_ | _ | _, d⟩ := e
    · cases hx
    · cases hx
    · obtain rfl := Except.ok.inj hx
      exact ⟨_, rfl, hv⟩

theorem exists_of_mem_fieldsOf {fs : Fields} (hx : fieldsOf x = .ok fs) {f : Text} {v : Bytes} (hf : (f, v) ∈ fs) :
    ∃ e, x = some e ∧ f ∈ e.fieldNames ∧ v ∈ e.contents := by
  cases x with
  | none =>
    obtain rfl := Except.ok.inj hx
    cases hf
  | some e =>
    obtain ⟨_ | _ | _, d⟩ := e
    · cases hx
    · obtain rfl := Except.ok.inj hx
      exact ⟨_, rfl, List.mem_map_of_mem hf, List.mem_map_of_mem hf⟩
    · cases hx

theorem grows_changeItems {g : List Bytes → List Bytes} (hg : ∀ items, ∀ v ∈ g items, v ∈ items ∨ v ∈ data)
    (s : Keyspace) (j : Text) : Grows true names data (s.find? j) ((s.changeItems now k g).2.find? j) := by
  refine Adds.visit (fun x => ?_) s j
  cases hx : itemsOf x with
  | error e => exact .refl _
  | ok items =>
    dsimp only
    cases hnew : g items with
    | nil => exact .none x
    | cons b bs =>
      refine .plain rfl fun v hv => ?_
      exact (hg items v (hnew ▸ hv)).imp_left (exists_of_mem_itemsOf hx)

theorem grows_expire (seconds : Int) (s : Keyspace) (j : Text) :
    Grows creates names data (s.find? j) ((s.expire now k seconds).2.find? j) := by
  refine Adds.visit (fun x => ?_) s j
  cases x with
  | none => exact .refl _
  | some e =>
    dsimp only
    split
    · exact .none _
    · cases deadlineAfter now seconds with
      | ok d => exact .redated (some d)
      | error f => exact .refl _

theorem grows_persist (s : Keyspace) (j : Text) :
    Grows creates names data (s.find? j) ((s.persist now k).2.find? j) := by
  refine Adds.visit (fun x => ?_) s j
  match x with
  | none | some ⟨_, none⟩ => exact .refl _
  | some ⟨_, some _⟩ => exact .redated none

theorem grows_setWithLifetime {b : Bytes} (hb : b ∈ data) (seconds : Int) (s : Keyspace) (j : Text) :
    Grows true names data (s.find? j) ((s.setWithLifetime now k b seconds).2.find? j) := by
  unfold Keyspace.setWithLifetime
  split
  · exact .refl _
  · cases deadlineAfter now seconds with
    | ok d => exact grows_put hb (some d) s j
    | error f => exact .refl _

end Keyspace

namespace Dispatch

variable {now : Instant} {creates : Bool} {names : List Text} {data : List Bytes} {s : Keyspace} {j : Text}

theorem mem_of_mem_pairs {kvs : List Bytes} {v : Bytes} (h : v ∈ (pairs kvs).map (·.2)) : v ∈ kvs := by
  fun_induction pairs kvs with
  | case1 field b r ih =>
    rcases List.mem_cons.mp h with rfl | h
    · exact List.mem_cons_of_mem field List.mem_cons_self
    · exact List.mem_cons_of_mem field (List.mem_cons_of_mem b (ih h))
  | case2 => cases h

theorem grows_withInteger (numeral : Bytes) {f : Int → Outcome}
    (hf : ∀ n, Grows creates names data (s.find? j) ((f n).2.find? j)) :
    Grows creates names data (s.find? j) ((withInteger numeral s f).2.find? j) := by
  unfold withInteger
  cases Argument.integer numeral with
  | ok n => exact hf n
  | error e => exact .refl _

theorem run_grows (name : Text) (c : Command) (args : List Bytes) (j : Text) :
    Grows c.creates ((c.createdFields args).map Text.ofBytes) args (s.find? j)
      ((run now s name c args).2.find? j) := by
  cases shape c args with
  | few lacking refused =>
    rw [refused]
    exact .refl _
  | hello | quit | dbsize | pong | ping | echo | keys => exact .refl _
  | flushdb | flushall => exact .none _
  | del => exact adds_dropOne.visitEach _ s j
  | exist => exact adds_countOne.visitEach _ s j
  | set key b more => exact grows_put (List.mem_cons_of_mem key List.mem_cons_self) none s j
  | setex key seconds b more =>
    have hb : b ∈ key :: seconds :: b :: more :=
      List.mem_cons_of_mem key (List.mem_cons_of_mem seconds List.mem_cons_self)
    refine grows_withInteger seconds fun n => ?_
    unfold setWithLifetime
    split
    · exact .refl _
    · exact grows_setWithLifetime hb n s j
  | expire key seconds => exact grows_withInteger seconds fun n => grows_expire n s j
  | persist => exact grows_persist s j
  | hset key kvs | hmset key kvs =>
    have hnames : (pairs kvs).map (·.1) = (Command.pairNames kvs).map Text.ofBytes := map_fst_pairs kvs
    have hput : Adds true ((pairs kvs).map (·.1)) (key :: kvs) (putVisit (pairs kvs)) :=
      adds_put fun v hv => List.mem_cons_of_mem key (mem_of_mem_pairs hv)
    rw [hnames] at hput
    exact hput.visit s j
  | hdel key fields => exact (adds_erase (fields.map .ofBytes)).visit s j
  | lpush key bs =>
    refine grows_changeItems (fun items v hv => ?_) s j
    rcases List.mem_append.mp hv with hb | hi
    · exact .inr (List.mem_cons_of_mem key (List.mem_reverse.mp hb))
    · exact .inl hi
  | rpush key bs =>
    refine grows_changeItems (fun items v hv => ?_) s j
    exact (List.mem_append.mp hv).imp_right (List.mem_cons_of_mem key)
  | hget key field => exact grows_readFields (·.find? (.ofBytes field)) s j
  | hexists key field => exact grows_readFields (fun fs => (fs.find? (.ofBytes field)).isSome) s j
  | hmget key fields => exact grows_readFields (fun fs => (fields.map Text.ofBytes).map (fs.find? ·)) s j
  | hkeys | hvals | hgetall => exact grows_readFields id s j
  | lrange key start stop =>
    exact grows_withInteger start fun m => grows_withInteger stop fun n => grows_readItems (window m n) s j
  | get => exact grows_get s j
  | ttl => exact grows_timeToLive s j
  | type => exact grows_typeOf s j
  | llen => exact grows_readItems List.length s j

theorem perform_grows (now : Instant) (s : Keyspace) (r : Request) (j : Text) :
    Grows (r.command?.any (·.creates)) (r.createdFields.map Text.ofBytes) r.args (s.find? j)
      ((perform now s r).2.find? j) := by
  unfold perform Request.createdFields Request.command?
  cases Command.ofText? r.name with
  | none => exact .refl _
  | some c =>
    by_cases ha : c.admits r.args.length = true
    · simp only [if_pos ha]
      exact run_grows r.name c r.args j
    · simp only [if_neg ha]
      exact .refl _

end Dispatch

namespace Request

variable {r : Request}

theorem isGlobal_of_creates (h : r.command?.any (·.creates) = true) : r.isGlobal = false := by
  unfold isGlobal
  cases hc : r.command? with
  | none => rfl
  | some c =>
    rw [hc] at h
    cases c <;> first | rfl | cases h

theorem creates_of_createdFields {g : Bytes} (h : g ∈ r.createdFields) : r.command?.any (·.creates) = true := by
  unfold createdFields at h
  cases hc : r.command? with
  | none =>
    rw [hc] at h
    cases h
  | some c =>
    rw [hc] at h
    cases c <;> first | rfl | cases h

end Request

namespace Dispatch

variable {now : Instant} {s : Keyspace} {r : Request} {k f : Text} {e : Entry}

theorem created_or_find?_perform (hr : r.command?.any (·.creates) = true) (h : (perform now s r).2.find? k = some e) :
    (∃ b ∈ r.createdKeys, keyOf b = k) ∨ s.find? k = some e := by
  by_cases hk : k ∈ r.keyArguments.map keyOf
  · obtain ⟨b, hb, hbk⟩ := List.mem_map.mp hk
    refine .inl ⟨b, ?_, hbk⟩
    rw [Request.createdKeys, if_pos hr]
    exact hb
  · have hframe : (perform now s r).2.find? k = s.find? k :=
      (perform_touches (Request.isGlobal_of_creates hr)).find?_of_not_mem hk s
    exact .inr (hframe.symm.trans h)

theorem key_origin (h : (perform now s r).2.find? k = some e) :
    (∃ e₀, s.find? k = some e₀) ∨ ∃ b ∈ r.createdKeys, keyOf b = k := by
  have hgrows := perform_grows now s r k
  rw [h] at hgrows
  rcases hgrows.entry rfl with hs | hcreates
  · exact .inl (Option.isSome_iff_exists.mp hs)
  · exact (created_or_find?_perform hcreates h).symm.imp_left fun hs => ⟨e, hs⟩

theorem field_origin (h : (perform now s r).2.find? k = some e) (hf : f ∈ e.fieldNames) :
    (∃ e₀, s.find? k = some e₀ ∧ f ∈ e₀.fieldNames) ∨
      (∃ b ∈ r.createdKeys, keyOf b = k) ∧ ∃ g ∈ r.createdFields, .ofBytes g = f := by
  have hgrows := perform_grows now s r k
  rw [h] at hgrows
  rcases hgrows.fields e rfl f hf with hs | hnew
  · exact .inl hs
  · obtain ⟨g, hg, hgf⟩ := List.mem_map.mp hnew
    rcases created_or_find?_perform (Request.creates_of_createdFields hg) h with hk | hs
    · exact .inr ⟨hk, g, hg, hgf⟩
    · exact .inl ⟨e, hs, hf⟩

theorem content_origin {v : Bytes} (h : (perform now s r).2.find? k = some e) (hv : v ∈ e.contents) :
    (∃ e₀, s.find? k = some e₀ ∧ v ∈ e₀.contents) ∨ v ∈ r.args := by
  have hgrows := perform_grows now s r k
  rw [h] at hgrows
  exact hgrows.contents e rfl v hv

end Dispatch

namespace Moment

open Dispatch

variable {es : List Event} {m : Moment}

/-- A key that is bound is a key of some request that stores a value, and the fields of a hash are fields of such
requests for that key. -/
structure Sourced (es : List Event) (m : Moment) : Prop where
  keys : ∀ {k e}, m.keyspace.find? k = some e → ∃ r, .request r ∈ es ∧ ∃ b ∈ r.createdKeys, keyOf b = k
  fields : ∀ {k e}, m.keyspace.find? k = some e → ∀ f ∈ e.fieldNames,
    ∃ r, .request r ∈ es ∧ (∃ b ∈ r.createdKeys, keyOf b = k) ∧ ∃ g ∈ r.createdFields, .ofBytes g = f

theorem Sourced.request (hm : m.Sourced es) {r : Request} (hr : .request r ∈ es) :
    (m.step (.request r)).Sourced es := by
  have hstep : (m.step (.request r)).keyspace = (perform m.now m.keyspace r).2 := by rw [step, dispatch_eq]
  constructor
  · intro k e h
    rw [hstep] at h
    rcases key_origin h with ⟨e₀, he₀⟩ | hnew
    · exact hm.keys he₀
    · exact ⟨r, hr, hnew⟩
  · intro k e h f hf
    rw [hstep] at h
    rcases field_origin h hf with ⟨e₀, he₀, hf₀⟩ | hnew
    · exact hm.fields he₀ f hf₀
    · exact ⟨r, hr, hnew⟩

theorem Sourced.sweep (hm : m.Sourced es) (hnodup : m.keyspace.keys.Nodup) : (m.step .sweep).Sourced es := by
  have hleft : ∀ {k e}, (m.step .sweep).keyspace.find? k = some e → m.keyspace.find? k = some e := by
    intro k e h
    have hlive : m.keyspace.live? m.now k = some e := (find?_liveEntries hnodup).symm.trans h
    exact (Option.filter_eq_some_iff.mp hlive).1
  exact ⟨fun h => hm.keys (hleft h), fun h => hm.fields (hleft h)⟩

theorem sourced_after (now : Instant) (es : List Event) : ((Moment.mk now []).after es).Sourced es := by
  have hboth : ((Moment.mk now []).after es).Coherent ∧ ((Moment.mk now []).after es).Sourced es := by
    refine after_induction (I := fun m => m.Coherent ∧ m.Sourced es) (fun e he m hm => ⟨hm.1.step e, ?_⟩) ?_
    · cases e with
      | request r => exact hm.2.request he
      | clock later => exact ⟨hm.2.keys, hm.2.fields⟩
      | sweep => exact hm.2.sweep hm.1.nodup
    · refine ⟨coherent_empty now, ?_, ?_⟩
      · intro k e h
        cases h
      · intro k e h
        cases h
  exact hboth.2

end Moment

end RespStore
