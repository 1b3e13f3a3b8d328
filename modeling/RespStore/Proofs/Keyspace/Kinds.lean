import RespStore.Proofs.Keyspace.Operation

/-! Values of the wrong kind. An operation on a string, on fields or on items is refused exactly over a live value of
another kind. A key that is absent, or whose value has expired, is as good as one of the right kind. -/

namespace RespStore.Keyspace

def HoldsOther (now : Instant) (k : Text) (kind : Kind) (s : Keyspace) : Prop :=
  ∃ e, s.live? now k = some e ∧ e.value.kind ≠ kind

structure Expects {α : Type} (now : Instant) (k : Text) (kind : Kind) (s : Keyspace)
    (x : Except Failure α × Keyspace) : Prop where
  refused : s.HoldsOther now k kind → x.1 = .error (.refused .wrongType)
  done : ¬s.HoldsOther now k kind → ∃ a, x.1 = .ok a

variable {α : Type} {now : Instant} {k : Text} {kind : Kind} {s : Keyspace}

theorem expects_visit {f : Option Entry → Except Failure α × Change} (hn : ∃ a, (f none).1 = .ok a)
    (hsame : ∀ e : Entry, e.value.kind = kind → ∃ a, (f (some e)).1 = .ok a)
    (hother : ∀ e : Entry, e.value.kind ≠ kind → (f (some e)).1 = .error (.refused .wrongType)) :
    s.Expects now k kind (s.visit now k f) where
  refused h := by
    obtain ⟨e, he, hkind⟩ := h
    rw [visit, he]
    exact hother e hkind
  done h := by
    rw [visit]
    cases he : s.live? now k with
    | none => exact hn
    | some e => exact hsame e (Decidable.of_not_not fun hkind => h ⟨e, he, hkind⟩)

theorem expects_get : s.Expects now k .string (s.get now k) := by
  refine expects_visit ⟨none, rfl⟩ ?_ ?_
  · rintro ⟨v, d⟩ h
    cases v with
    | string data => exact ⟨some data, rfl⟩
    | hash _ | list _ => cases h
  · rintro ⟨v, d⟩ h
    cases v with
    | string data => exact absurd rfl h
    | hash _ | list _ => rfl

theorem fieldsOf_hash {e : Entry} (h : e.value.kind = .hash) : ∃ fs, fieldsOf (some e) = .ok fs := by
  obtain ⟨v, d⟩ := e
  cases v with
  | hash fs => exact ⟨fs, rfl⟩
  | string _ | list _ => cases h

theorem fieldsOf_other {e : Entry} (h : e.value.kind ≠ .hash) : fieldsOf (some e) = .error (.refused .wrongType) := by
  obtain ⟨v, d⟩ := e
  cases v with
  | hash fs => exact absurd rfl h
  | string _ | list _ => rfl

theorem expects_readFields (f : Fields → α) : s.Expects now k .hash (s.readFields now k f) := by
  refine expects_visit ⟨f [], rfl⟩ ?_ ?_
  · intro e h
    obtain ⟨fs, hfs⟩ := fieldsOf_hash h
    exact ⟨f fs, by rw [hfs]; rfl⟩
  · intro e h
    rw [fieldsOf_other h]
    rfl

theorem expects_putFields (kvs : List (Text × Bytes)) : s.Expects now k .hash (s.putFields now k kvs) := by
  refine expects_visit ⟨(), rfl⟩ ?_ ?_
  · intro e h
    obtain ⟨fs, hfs⟩ := fieldsOf_hash h
    exact ⟨(), by rw [hfs]⟩
  · intro e h
    rw [fieldsOf_other h]

theorem expects_deleteFields (fields : List Text) : s.Expects now k .hash (s.deleteFields now k fields) := by
  refine expects_visit ⟨0, rfl⟩ ?_ ?_
  · rintro ⟨v, d⟩ h
    cases v with
    | hash fs =>
      dsimp only
      split
      · exact ⟨_, rfl⟩
      · exact ⟨_, rfl⟩
    | string _ | list _ => cases h
  · rintro ⟨v, d⟩ h
    cases v with
    | hash fs => exact absurd rfl h
    | string _ | list _ => rfl

theorem itemsOf_list {e : Entry} (h : e.value.kind = .list) : ∃ items, itemsOf (some e) = .ok items := by
  obtain ⟨v, d⟩ := e
  cases v with
  | list items => exact ⟨items, rfl⟩
  | string _ | hash _ => cases h

theorem itemsOf_other {e : Entry} (h : e.value.kind ≠ .list) : itemsOf (some e) = .error (.refused .wrongType) := by
  obtain ⟨v, d⟩ := e
  cases v with
  | list items => exact absurd rfl h
  | string _ | hash _ => rfl

theorem expects_readItems (f : List Bytes → α) : s.Expects now k .list (s.readItems now k f) := by
  refine expects_visit ⟨f [], rfl⟩ ?_ ?_
  · intro e h
    obtain ⟨items, hitems⟩ := itemsOf_list h
    exact ⟨f items, by rw [hitems]; rfl⟩
  · intro e h
    rw [itemsOf_other h]
    rfl

theorem expects_changeItems (f : List Bytes → List Bytes) : s.Expects now k .list (s.changeItems now k f) := by
  refine expects_visit ⟨_, storeItems_fst none (f [])⟩ ?_ ?_
  · intro e h
    obtain ⟨items, hitems⟩ := itemsOf_list h
    rw [hitems]
    exact ⟨_, storeItems_fst _ (f items)⟩
  · intro e h
    rw [itemsOf_other h]

end RespStore.Keyspace
