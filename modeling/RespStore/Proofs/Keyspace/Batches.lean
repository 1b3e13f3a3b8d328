import RespStore.Proofs.Keyspace.Operation
import RespStore.Proofs.Keyspace.SameFields

/-! Batches. What is done to several things at once, keys, fields or values, is done to the first of them and then to
the others. Two visits to one key come to one visit, for the first leaves nothing that has expired; and a field that is
named twice keeps its place and takes the last value, whether the fields are collected before they are put or not. -/

namespace RespStore

namespace Bindings

variable {α β : Type} [DecidableEq α] {j k : α} {v w : β} {s t : Bindings α β}

theorem put_put : put k v (put k w s) = put k v s := by
  induction s with
  | nil => simp [put]
  | cons p s ih => by_cases h : p.1 = k <;> simp [put, h, ih]

theorem erase_put : erase k (put k v s) = erase k s := by
  induction s with
  | nil => simp [put, erase]
  | cons p s ih =>
    simp only [erase] at ih ⊢
    by_cases h : p.1 = k <;> simp_all [put]

theorem erase_erase : erase k (erase k s) = erase k s := by
  unfold erase
  rw [List.filter_filter]
  simp only [Bool.and_self]

theorem put_comm (hk : k ∈ keys s) (hj : j ≠ k) : put k v (put j w s) = put j w (put k v s) := by
  induction s with
  | nil => cases hk
  | cons p s ih =>
    rw [keys, List.map_cons, List.mem_cons] at hk
    by_cases hp : p.1 = k
    · simp [put, hp, Ne.symm hj]
    · have hrest : k ∈ keys s := hk.resolve_left fun h => hp h.symm
      by_cases hpj : p.1 = j
      · simp [put, hpj, hj]
      · simp [put, hp, hpj, ih hrest]

theorem putAll_cons (p : α × β) (kvs : List (α × β)) (s : Bindings α β) :
    putAll (p :: kvs) s = putAll kvs (put p.1 p.2 s) := rfl

theorem put_putAll_comm (hk : k ∈ s.keys) {kvs : List (α × β)} (hkvs : k ∉ kvs.map (·.1)) :
    put k v (putAll kvs s) = putAll kvs (put k v s) := by
  induction kvs generalizing s with
  | nil => rfl
  | cons p kvs ih =>
    rw [List.map_cons, List.mem_cons, not_or] at hkvs
    rw [putAll_cons, putAll_cons, ih (mem_keys_put.mpr (.inr hk)) hkvs.2, put_comm hk (Ne.symm hkvs.1)]

theorem putAll_put (ht : t.keys.Nodup) : putAll (put k v t) s = put k v (putAll t s) := by
  induction t generalizing s with
  | nil => rfl
  | cons p t ih =>
    rw [keys, List.map_cons, List.nodup_cons] at ht
    by_cases hp : p.1 = k
    · subst hp
      have hput : put p.1 v (p :: t) = (p.1, v) :: t := by simp [put]
      have hmem : p.1 ∈ (put p.1 p.2 s).keys := mem_keys_put.mpr (.inl rfl)
      rw [hput, putAll_cons, putAll_cons, put_putAll_comm hmem ht.1, put_put]
    · have hput : put k v (p :: t) = p :: put k v t := by simp [put, hp]
      rw [hput, putAll_cons, putAll_cons, ih ht.2]

theorem putAll_putAll (ht : t.keys.Nodup) (kvs : List (α × β)) :
    putAll (putAll kvs t) s = putAll kvs (putAll t s) := by
  induction kvs generalizing t with
  | nil => rfl
  | cons p kvs ih => rw [putAll_cons, putAll_cons, ih (nodup_put ht), putAll_put ht]

theorem putAll_collected (kvs : List (α × β)) (s : Bindings α β) : putAll (putAll kvs []) s = putAll kvs s :=
  putAll_putAll (t := []) List.nodup_nil kvs

end Bindings

def Change.andThen : Change → Change → Change
  | c, .keep => c
  | _, d => d

namespace Keyspace

variable {α β γ : Type} {now : Instant} {k : Text} {s : Keyspace}

/-- Done in one go, it comes to the same as the first part and then the rest; or a value of another kind is in the
way of the whole, the first part and the rest. -/
inductive InTwo (s : Keyspace) (first : Except Failure α × Keyspace) (rest : Keyspace → Except Failure β × Keyspace)
    (whole : Except Failure γ × Keyspace) (join : α → β → γ) : Prop
  | done {a : α} {b : β} {t u : Keyspace} (hfirst : first = (.ok a, t)) (hrest : rest t = (.ok b, u))
    (hwhole : whole = (.ok (join a b), u)) : InTwo s first rest whole join
  | refused (hfirst : first = (.error (.refused .wrongType), s)) (hrest : rest s = (.error (.refused .wrongType), s))
    (hwhole : whole = (.error (.refused .wrongType), s)) : InTwo s first rest whole join

inductive JoinsAt (f : Option Entry → Except Failure α × Change) (g : Option Entry → Except Failure β × Change)
    (h : Option Entry → Except Failure γ × Change) (join : α → β → γ) (x : Option Entry) : Prop
  | done {a : α} {b : β} {c d : Change} (hf : f x = (.ok a, c)) (hg : g (c.left x) = (.ok b, d))
    (hh : h x = (.ok (join a b), c.andThen d)) (hdeadline : ∀ e, c = .store e → e.deadline = x.bind (·.deadline))
    (hplace : ∀ e, d = .store e → c ≠ .drop) : JoinsAt f g h join x
  | refused {e : Entry} (hx : x = some e) (hf : f x = (.error (.refused .wrongType), .keep))
    (hg : g x = (.error (.refused .wrongType), .keep)) (hh : h x = (.error (.refused .wrongType), .keep)) :
    JoinsAt f g h join x

theorem change_change {c d : Change} (h : ∀ e, d = .store e → c ≠ .drop) :
    (s.change k c).change k d = s.change k (c.andThen d) := by
  cases d with
  | keep => rfl
  | store e =>
    cases c with
    | keep => rfl
    | store x => exact Bindings.put_put
    | drop => exact absurd rfl (h e rfl)
  | drop =>
    cases c with
    | keep => rfl
    | store x => exact Bindings.erase_put
    | drop => exact Bindings.erase_erase

theorem visit_eq {f : Option Entry → α × Change} {a : α} {c : Change} (h : f (s.live? now k) = (a, c)) :
    s.visit now k f = (a, (s.settle now k).change k c) := by rw [visit, h]

theorem visit_eq_of_kept {f : Option Entry → α × Change} {a : α} {e : Entry} (he : s.live? now k = some e)
    (h : f (s.live? now k) = (a, .keep)) : s.visit now k f = (a, s) := by
  rw [visit_eq h, settle_of_live? he]
  rfl

theorem inTwo_visit {f : Option Entry → Except Failure α × Change} {g : Option Entry → Except Failure β × Change}
    {h : Option Entry → Except Failure γ × Change} {join : α → β → γ} (hj : JoinsAt f g h join (s.live? now k)) :
    InTwo s (s.visit now k f) (·.visit now k g) (s.visit now k h) join := by
  cases hj with
  | @done a b c d hf hg hh hdeadline hplace =>
    have hdated : ∀ e, (f (s.live? now k)).2 = .store e → e.deadline = (s.live? now k).bind (·.deadline) := by
      rw [hf]
      exact hdeadline
    -- The first visit leaves nothing that has expired, so the second has nothing to settle.
    have hleft : ∀ e ∈ (s.visit now k f).2.find? k, e.isExpired now = false := find?_visit_not_expired f hdated
    have hlive : (s.visit now k f).2.live? now k = c.left (s.live? now k) := by
      rw [live?_of_not_expired hleft, find?_visit, if_pos rfl, hf]
    have hsettle : (s.visit now k f).2.settle now k = (s.settle now k).change k c := by
      rw [settle_of_not_expired hleft, visit_eq hf]
    have hrest : (s.visit now k f).2.visit now k g = (.ok b, (s.settle now k).change k (c.andThen d)) := by
      rw [visit_eq (hlive.symm ▸ hg), hsettle, change_change hplace]
    rw [visit_eq hf] at hrest
    exact .done (visit_eq hf) hrest (visit_eq hh)
  | refused hx hf hg hh => exact .refused (visit_eq_of_kept hx hf) (visit_eq_of_kept hx hg) (visit_eq_of_kept hx hh)

section Joins

variable {f : Option Entry → Except Failure α × Change} {g : Option Entry → Except Failure β × Change}
variable {h : Option Entry → Except Failure γ × Change} {join : α → β → γ} {x : Option Entry} {a : α} {b : β}

theorem JoinsAt.of_kept (hf : f x = (.ok a, .keep)) (hg : g x = (.ok b, .keep)) (hh : h x = (.ok (join a b), .keep)) :
    JoinsAt f g h join x :=
  .done hf hg hh (fun _ he => by cases he) (fun _ he => by cases he)

theorem JoinsAt.of_stored {y : Entry} {c : Change} (hf : f x = (.ok a, .store y)) (hg : g (some y) = (.ok b, c))
    (hh : h x = (.ok (join a b), (Change.store y).andThen c)) (hy : y.deadline = x.bind (·.deadline)) :
    JoinsAt f g h join x := by
  refine .done hf hg hh (fun e he => ?_) (fun _ _ he => by cases he)
  obtain rfl := Change.store.inj he
  exact hy

theorem joinsAt_read (p : Fields → α) (q : Fields → β) (join : α → β → γ) (x : Option Entry) :
    JoinsAt (fun x => ((fieldsOf x).map p, .keep)) (fun x => ((fieldsOf x).map q, .keep))
      (fun x => ((fieldsOf x).map fun fs => join (p fs) (q fs), .keep)) join x := by
  match x with
  | none | some ⟨.hash _, _⟩ => exact .of_kept rfl rfl rfl
  | some ⟨.string _, _⟩ | some ⟨.list _, _⟩ => exact .refused rfl rfl rfl rfl

theorem joinsAt_put (kv : Text × Bytes) (kvs : List (Text × Bytes)) (x : Option Entry) :
    JoinsAt (putVisit [kv]) (putVisit kvs) (putVisit (kv :: kvs)) (fun _ _ => ()) x := by
  match x with
  | none | some ⟨.hash _, _⟩ => exact .of_stored rfl rfl rfl rfl
  | some ⟨.string _, _⟩ | some ⟨.list _, _⟩ => exact .refused rfl rfl rfl rfl

def storeFields (deadline : Option Instant) : Fields → Change
  | [] => .drop
  | fs => .store ⟨.hash fs, deadline⟩

theorem andThen_storeFields (c : Change) (d : Option Instant) (fs : Fields) :
    c.andThen (storeFields d fs) = storeFields d fs := by cases fs <;> rfl

theorem eraseVisit_hash (names : List Text) (fs : Fields) (d : Option Instant) :
    eraseVisit names (some ⟨.hash fs, d⟩) = (.ok (eraseFields names fs).1, storeFields d (eraseFields names fs).2) := by
  rw [eraseVisit]
  split
  · rename_i n h
    rw [h]
    rfl
  · rename_i n rest hrest h
    rw [h, storeFields]
    exact hrest

theorem eraseFields_in_two (f : Text) (names : List Text) (fs : Fields) :
    eraseFields (f :: names) fs =
      ((eraseFields [f] fs).1 + (eraseFields names (eraseFields [f] fs).2).1,
        (eraseFields names (eraseFields [f] fs).2).2) := by
  rw [eraseFields_cons f names, eraseFields_cons f []]
  split
  · rfl
  · exact Prod.ext (Nat.zero_add _).symm rfl

theorem joinsAt_erase (f : Text) (names : List Text) (x : Option Entry) :
    JoinsAt (eraseVisit [f]) (eraseVisit names) (eraseVisit (f :: names)) (· + ·) x := by
  match x with
  | none => exact .of_kept rfl rfl rfl
  | some ⟨.string _, _⟩ | some ⟨.list _, _⟩ => exact .refused rfl rfl rfl rfl
  | some ⟨.hash fs, d⟩ =>
    have hfirst := eraseVisit_hash [f] fs d
    have hwhole := eraseVisit_hash (f :: names) fs d
    rw [eraseFields_in_two] at hwhole
    cases hrest : (eraseFields [f] fs).2 with
    | nil =>
      -- The hash is gone, and the rest finds nothing under its key.
      rw [hrest] at hfirst hwhole
      rw [eraseFields_nil] at hwhole
      exact .done hfirst rfl hwhole (fun _ he => by cases he) (fun _ he => by cases he)
    | cons p rest =>
      rw [hrest] at hfirst hwhole
      rw [← andThen_storeFields (storeFields d (p :: rest))] at hwhole
      exact .of_stored hfirst (eraseVisit_hash names (p :: rest) d) hwhole rfl

theorem storeItems_eq (d : Option Instant) (items : List Bytes) :
    storeItems d items = (.ok items.length, (storeItems d items).2) := Prod.ext (storeItems_fst d items) rfl

theorem storeItems_of_ne_nil {items : List Bytes} (h : items ≠ []) (d : Option Instant) :
    storeItems d items = (.ok items.length, .store ⟨.list items, d⟩) := by
  cases items with
  | nil => cases h rfl
  | cons item items => rfl

theorem andThen_storeItems (c : Change) (d : Option Instant) (items : List Bytes) :
    c.andThen (storeItems d items).2 = (storeItems d items).2 := by cases items <;> rfl

def itemsVisit (p : List Bytes → List Bytes) (x : Option Entry) : Except Failure Nat × Change :=
  match itemsOf x with
  | .ok items => storeItems (x.bind (·.deadline)) (p items)
  | .error fault => (.error fault, .keep)

theorem joinsAt_items_of_ok {p : List Bytes → List Bytes} (q : List Bytes → List Bytes) (hp : ∀ items, p items ≠ [])
    {items : List Bytes} (hx : itemsOf x = .ok items) :
    JoinsAt (itemsVisit p) (itemsVisit q) (itemsVisit fun items => q (p items)) (fun _ n => n) x := by
  have hfirst : itemsVisit p x = storeItems (x.bind (·.deadline)) (p items) := by rw [itemsVisit, hx]
  have hwhole : itemsVisit (fun items => q (p items)) x = storeItems (x.bind (·.deadline)) (q (p items)) := by
    rw [itemsVisit, hx]
  rw [storeItems_of_ne_nil (hp items)] at hfirst
  rw [storeItems_eq, ← andThen_storeItems (.store ⟨.list (p items), x.bind (·.deadline)⟩)] at hwhole
  exact .of_stored hfirst (storeItems_eq _ _) hwhole rfl

theorem joinsAt_items {p : List Bytes → List Bytes} (q : List Bytes → List Bytes) (hp : ∀ items, p items ≠ [])
    (x : Option Entry) :
    JoinsAt (itemsVisit p) (itemsVisit q) (itemsVisit fun items => q (p items)) (fun _ n => n) x := by
  match x with
  | none | some ⟨.list _, _⟩ => exact joinsAt_items_of_ok q hp rfl
  | some ⟨.string _, _⟩ | some ⟨.hash _, _⟩ => exact .refused rfl rfl rfl rfl

end Joins

structure Piecewise {ι : Type} (now : Instant) (one : ι → Operation α) (many : List ι → Operation β)
    (single : α → β) (join : α → β → β) : Prop where
  untimed : ∀ i, (one i).isTimed = false
  singleton : ∀ i s, (many [i]).call now s = (((one i).call now s).1.map single, ((one i).call now s).2)
  cons : ∀ i is s, InTwo s ((one i).call now s) ((many is).call now) ((many (i :: is)).call now s) join

def inTurn {ι : Type} (now : Instant) (one : ι → Operation α) : List ι → Keyspace → List (Except Failure α) × Keyspace
  | [], s => ([], s)
  | i :: is, s =>
    let x := (one i).call now s
    let y := inTurn now one is x.2
    (x.1 :: y.1, y.2)

def joinAll (single : α → β) (join : α → β → β) (a : α) : List α → β
  | [] => single a
  | b :: as => join a (joinAll single join b as)

inductive Joined {ι : Type} (now : Instant) (s : Keyspace) (one : ι → Operation α) (many : List ι → Operation β)
    (single : α → β) (join : α → β → β) (is : List ι) : Prop
  | done (a : α) (as : List α) {t : Keyspace} (heach : inTurn now one is s = ((a :: as).map .ok, t))
    (hwhole : (many is).call now s = (.ok (joinAll single join a as), t)) : Joined now s one many single join is
  | refused (heach : inTurn now one is s = (is.map fun _ => .error (.refused .wrongType), s))
    (hwhole : (many is).call now s = (.error (.refused .wrongType), s)) : Joined now s one many single join is

variable {ι κ : Type} {one : ι → Operation α} {many : List ι → Operation β} {single : α → β} {join : α → β → β}

theorem Piecewise.joined (h : Piecewise now one many single join) (i : ι) (is : List ι) (s : Keyspace) :
    Joined now s one many single join (i :: is) := by
  induction is generalizing i s with
  | nil =>
    have hguarded : s.Guarded ((one i).call now s) := Operation.guarded_call (h.untimed i) s
    have hwhole := h.singleton i s
    have heach : inTurn now one [i] s = ([((one i).call now s).1], ((one i).call now s).2) := rfl
    generalize (one i).call now s = x at hguarded hwhole heach
    obtain ⟨e | a, t⟩ := x
    · obtain ⟨rfl, rfl⟩ := hguarded e rfl
      exact .refused heach hwhole
    · exact .done a [] heach hwhole
  | cons j is ih =>
    cases h.cons i (j :: is) s with
    | @done a b t u hfirst hrest hwhole =>
      cases ih j t with
      | done c as heach hjoined =>
        obtain ⟨hb, rfl⟩ := Prod.mk.inj (hrest.symm.trans hjoined)
        obtain rfl := Except.ok.inj hb
        exact .done a (c :: as) (by rw [inTurn, hfirst, heach]; rfl) hwhole
      | refused heach hjoined => cases hrest.symm.trans hjoined
    | refused hfirst hrest hwhole =>
      cases ih j s with
      | done _ _ heach hjoined => cases hrest.symm.trans hjoined
      | refused heach hjoined => exact .refused (by rw [inTurn, hfirst, heach]; rfl) hwhole

theorem piecewise_of_cons {many : List ι → Operation α} {join : α → α → α}
    (huntimed : ∀ is, (many is).isTimed = false)
    (hcons : ∀ i is s, InTwo s ((many [i]).call now s) ((many is).call now) ((many (i :: is)).call now s) join) :
    Piecewise now (fun i => many [i]) many id join where
  untimed i := huntimed [i]
  singleton i s := by rw [Except.map_id]; rfl
  cons := hcons

theorem Piecewise.comap (h : Piecewise now one many single join) (f : κ → ι) :
    Piecewise now (fun k => one (f k)) (fun ks => many (ks.map f)) single join where
  untimed k := h.untimed (f k)
  singleton k s := h.singleton (f k) s
  cons k ks s := h.cons (f k) (ks.map f) s

theorem inTwo_visitEach (f : Option Entry → Nat × Change) (k : Text) (ks : List Text) (s : Keyspace) :
    InTwo s (Operation.call.sure (s.visitEach now f [k])) (fun t => Operation.call.sure (t.visitEach now f ks))
      (Operation.call.sure (s.visitEach now f (k :: ks))) (· + ·) := by
  rw [visitEach_cons now f k ks, visitEach_cons now f k []]
  exact .done rfl rfl rfl

theorem piecewise_delete (now : Instant) : Piecewise now (fun k => .delete [k]) .delete id (· + ·) :=
  piecewise_of_cons (fun _ => rfl) (inTwo_visitEach dropOne)

theorem piecewise_countExisting (now : Instant) :
    Piecewise now (fun k => .countExisting [k]) .countExisting id (· + ·) :=
  piecewise_of_cons (fun _ => rfl) (inTwo_visitEach countOne)

theorem piecewise_putFields (now : Instant) (k : Text) :
    Piecewise now (fun kv => .putFields k [kv]) (.putFields k) id fun _ _ => () :=
  piecewise_of_cons (fun _ => rfl) fun kv kvs _ => inTwo_visit (joinsAt_put kv kvs _)

theorem piecewise_deleteFields (now : Instant) (k : Text) :
    Piecewise now (fun f => .deleteFields k [f]) (.deleteFields k) id (· + ·) :=
  piecewise_of_cons (fun _ => rfl) fun f fs _ => inTwo_visit (joinsAt_erase f fs _)

theorem piecewise_fieldValues (now : Instant) (k : Text) :
    Piecewise now (.fieldValue k) (.fieldValues k) (fun v => [v]) (· :: ·) where
  untimed f := rfl
  singleton f s := by
    have hmap : ∀ x : Except Failure Fields, x.map (fun hash => [hash.find? f]) =
        (x.map (·.find? f)).map fun v => [v] := by
      rintro (e | hash) <;> rfl
    exact Prod.ext (hmap (fieldsOf (s.live? now k))) rfl
  cons f fs _ := inTwo_visit (joinsAt_read (·.find? f) (fun hash => fs.map hash.find?) (· :: ·) _)

theorem inTwo_changeItems {p q r : List Bytes → List Bytes} (hp : ∀ items, p items ≠ [])
    (hr : ∀ items, r items = q (p items)) :
    InTwo s (s.changeItems now k p) (·.changeItems now k q) (s.changeItems now k r) fun _ n => n := by
  obtain rfl : r = fun items => q (p items) := funext hr
  exact inTwo_visit (joinsAt_items q hp _)

theorem piecewise_pushFront (now : Instant) (k : Text) :
    Piecewise now (fun v => .pushFront k [v]) (.pushFront k) id fun _ n => n :=
  piecewise_of_cons (fun _ => rfl) fun v vs _ =>
    inTwo_changeItems (fun items => List.cons_ne_nil v items) fun items => by
      rw [List.reverse_cons, List.append_assoc]
      rfl

theorem piecewise_pushBack (now : Instant) (k : Text) :
    Piecewise now (fun v => .pushBack k [v]) (.pushBack k) id fun _ n => n :=
  piecewise_of_cons (fun _ => rfl) fun v vs _ =>
    inTwo_changeItems (fun items => by simp) fun items => List.append_cons items v vs

end Keyspace

end RespStore
