import RespStore.Keyspace.Hashes
import RespStore.Proofs.Keyspace.Live

/-! Hashes that agree in some of their fields. What is asked of single fields depends on those alone, and what is
done to single fields leaves all others as they were. -/

namespace RespStore

theorem Bindings.find?_putAll_of_not_mem {α β : Type} [DecidableEq α] {kvs : List (α × β)} {k : α}
    (hk : k ∉ kvs.map (·.1)) (s : Bindings α β) : find? k (putAll kvs s) = find? k s := by
  induction kvs generalizing s with
  | nil => rfl
  | cons kv kvs ih =>
    rw [List.map_cons, List.mem_cons, not_or] at hk
    exact (ih hk.2 _).trans (find?_put_of_ne hk.1 kv.2 s)

namespace Keyspace

variable {names others : List Text} {x y : Option Entry} {fs gs : Fields} {f : Text}

theorem find?_eraseFields_of_not_mem (hf : f ∉ names) : (eraseFields names fs).2.find? f = fs.find? f := by
  induction names generalizing fs with
  | nil => rfl
  | cons g names ih =>
    rw [List.mem_cons, not_or] at hf
    rw [eraseFields_cons]
    split
    · exact (ih hf.2).trans (Bindings.find?_erase_of_ne hf.1 fs)
    · exact ih hf.2

theorem eraseFields_congr (h : ∀ f ∈ names, fs.find? f = gs.find? f) :
    (eraseFields names fs).1 = (eraseFields names gs).1 := by
  -- Both sides erase a field or neither does, and then they still agree in those that are left.
  induction names generalizing fs gs with
  | nil => rfl
  | cons g names ih =>
    have hg : fs.find? g = gs.find? g := h g List.mem_cons_self
    have hrest : ∀ f ∈ names, fs.find? f = gs.find? f := fun f hf => h f (List.mem_cons_of_mem g hf)
    rw [eraseFields_cons, eraseFields_cons, hg]
    split
    · refine congrArg (1 + ·) (ih fun f hf => ?_)
      by_cases hfg : f = g
      · rw [hfg, Bindings.find?_erase_self, Bindings.find?_erase_self]
      · rw [Bindings.find?_erase_of_ne hfg, Bindings.find?_erase_of_ne hfg, hrest f hf]
    · exact ih hrest

/-- Two hashes, or keys that are not there, with the same values in some fields; or two values of other kinds. -/
inductive SameFields (names : List Text) (x y : Option Entry) : Prop
  | agree {fs gs : Fields} (hx : fieldsOf x = .ok fs) (hy : fieldsOf y = .ok gs)
    (h : ∀ f ∈ names, fs.find? f = gs.find? f) : SameFields names x y
  | other {e : Failure} (hx : fieldsOf x = .error e) (hy : fieldsOf y = .error e) : SameFields names x y

theorem SameFields.refl (names : List Text) (x : Option Entry) : SameFields names x x := by
  cases hx : fieldsOf x with
  | ok fs => exact .agree hx hx fun _ _ => rfl
  | error e => exact .other hx hx

theorem SameFields.map_congr {α : Type} {p : Fields → α} (h : SameFields names x y)
    (hp : ∀ {fs gs : Fields}, (∀ f ∈ names, fs.find? f = gs.find? f) → p fs = p gs) :
    (fieldsOf x).map p = (fieldsOf y).map p := by
  cases h with
  | agree hx hy h =>
    rw [hx, hy]
    exact congrArg Except.ok (hp h)
  | other hx hy => rw [hx, hy]

structure FieldWise {α : Type} (names : List Text) (f : Option Entry → Except Failure α × Change) : Prop where
  reply : ∀ {x y}, SameFields names x y → (f x).1 = (f y).1
  effect : ∀ {others}, (∀ g ∈ others, g ∉ names) → ∀ x, SameFields others x ((f x).2.left x)
  deadline : ∀ {x e}, (f x).2 = .store e → e.deadline = x.bind (·.deadline)

variable {α β : Type}

theorem FieldWise.map {f : Option Entry → Except Failure α × Change} (hf : FieldWise names f) (g : α → β) :
    FieldWise names fun x => ((f x).1.map g, (f x).2) where
  reply h := by rw [hf.reply h]
  effect := hf.effect
  deadline := hf.deadline

theorem fieldWise_read {p : Fields → α}
    (hp : ∀ {fs gs : Fields}, (∀ f ∈ names, fs.find? f = gs.find? f) → p fs = p gs) :
    FieldWise names fun x => ((fieldsOf x).map p, .keep) where
  reply h := h.map_congr hp
  effect _ x := .refl _ x
  deadline h := by cases h

def putVisit (kvs : List (Text × Bytes)) (x : Option Entry) : Except Failure Unit × Change :=
  match fieldsOf x with
  | .ok fs => (.ok (), .store ⟨.hash (fs.putAll kvs), x.bind (·.deadline)⟩)
  | .error e => (.error e, .keep)

theorem fieldWise_put (kvs : List (Text × Bytes)) : FieldWise (kvs.map (·.1)) (putVisit kvs) where
  reply h := by
    cases h with
    | agree hx hy => rw [putVisit, putVisit, hx, hy]
    | other hx hy => rw [putVisit, putVisit, hx, hy]
  effect hothers x := by
    unfold putVisit
    cases hx : fieldsOf x with
    | ok fs => exact .agree hx rfl fun f hf => (Bindings.find?_putAll_of_not_mem (hothers f hf) fs).symm
    | error e => exact .refl _ x
  deadline {x e} h := by
    unfold putVisit at h
    cases hx : fieldsOf x with
    | ok fs =>
      rw [hx] at h
      obtain rfl := Change.store.inj h
      rfl
    | error e =>
      rw [hx] at h
      cases h

def eraseVisit (names : List Text) : Option Entry → Except Failure Nat × Change
  | none => (.ok 0, .keep)
  | some ⟨.hash fs, deadline⟩ =>
    match eraseFields names fs with
    | (n, []) => (.ok n, .drop)
    | (n, rest) => (.ok n, .store ⟨.hash rest, deadline⟩)
  | some _ => (.error (.refused .wrongType), .keep)

theorem eraseFields_nil (names : List Text) : eraseFields names [] = (0, []) := by
  induction names with
  | nil => rfl
  | cons f names ih => rw [eraseFields_cons, Bindings.find?_nil, Option.isSome_none, if_neg Bool.false_ne_true, ih]

theorem eraseVisit_fst (names : List Text) (x : Option Entry) :
    (eraseVisit names x).1 = (fieldsOf x).map fun fs => (eraseFields names fs).1 := by
  match x with
  | none => rw [fieldsOf, Except.map, eraseFields_nil]; rfl
  | some ⟨.string _, _⟩ | some ⟨.list _, _⟩ => rfl
  | some ⟨.hash fs, d⟩ =>
    rw [eraseVisit, fieldsOf, Except.map]
    split <;> simp_all

theorem eraseVisit_left (names : List Text) (fs : Fields) (d : Option Instant) :
    fieldsOf ((eraseVisit names (some ⟨.hash fs, d⟩)).2.left (some ⟨.hash fs, d⟩)) =
      .ok (eraseFields names fs).2 := by
  rw [eraseVisit]
  split
  · rename_i n h
    rw [h]
    rfl
  · rename_i n rest _ h
    rw [h]
    rfl

theorem fieldWise_erase (names : List Text) : FieldWise names (eraseVisit names) where
  reply h := by
    rw [eraseVisit_fst, eraseVisit_fst]
    exact h.map_congr eraseFields_congr
  effect hothers x := by
    match x with
    | none => exact .refl _ _
    | some ⟨.string _, _⟩ | some ⟨.list _, _⟩ => exact .refl _ _
    | some ⟨.hash fs, d⟩ =>
      exact .agree rfl (eraseVisit_left names fs d) fun f hf => (find?_eraseFields_of_not_mem (hothers f hf)).symm
  deadline {x e} h := by
    match x, h with
    | none, h => cases h
    | some ⟨.string _, _⟩, h | some ⟨.list _, _⟩, h => cases h
    | some ⟨.hash fs, d⟩, h =>
      rw [eraseVisit] at h
      split at h
      · cases h
      · obtain rfl := Change.store.inj h
        rfl

theorem FieldWise.live?_visit {f : Option Entry → Except Failure α × Change} (hf : FieldWise names f)
    (now : Instant) (s : Keyspace) (k : Text) :
    (s.visit now k f).2.live? now k = (f (s.live? now k)).2.left (s.live? now k) := by
  rw [live?_of_not_expired (find?_visit_not_expired f fun _ => hf.deadline), find?_visit, if_pos rfl]

end Keyspace

end RespStore
