import RespStore.Proofs.Keyspace.Every

/-! Entries in good order. A hash has fields, each of them once, and a list has items; whatever an operation that a
request can ask for stores is in good order again. -/

namespace RespStore

namespace Bindings

variable {α β : Type} [DecidableEq α] {s : Bindings α β} {k : α} {v : β}

theorem put_ne_nil : put k v s ≠ [] := by
  intro h
  have hk : find? k (put k v s) = none := by rw [h, find?_nil]
  rw [find?_put_self] at hk
  cases hk

theorem nodup_putAll (kvs : List (α × β)) (hs : s.keys.Nodup) : (putAll kvs s).keys.Nodup := by
  induction kvs generalizing s with
  | nil => exact hs
  | cons kv kvs ih => exact ih (nodup_put hs)

theorem putAll_ne_nil {kvs : List (α × β)} (h : s ≠ [] ∨ kvs ≠ []) : putAll kvs s ≠ [] := by
  induction kvs generalizing s with
  | nil => exact h.resolve_right fun hk => hk rfl
  | cons kv kvs ih => exact ih (.inl put_ne_nil)

end Bindings

structure Entry.WellFormed (e : Entry) : Prop where
  string : e.value.kind = .string → ∃ data, e.value = .string data
  hash : e.value.kind = .hash → ∃ fs : Fields, e.value = .hash fs ∧ fs ≠ [] ∧ fs.keys.Nodup
  list : e.value.kind = .list → ∃ items, e.value = .list items ∧ items ≠ []

theorem Entry.WellFormed.redated {v : Value} {old : Option Instant} (h : Entry.WellFormed ⟨v, old⟩)
    (d : Option Instant) : Entry.WellFormed ⟨v, d⟩ := ⟨h.string, h.hash, h.list⟩

namespace Keyspace

variable {d : Option Instant} {now : Instant} {k : Text} {s : Keyspace}

theorem wellFormed_string (data : Bytes) : Entry.WellFormed ⟨.string data, d⟩ where
  string _ := ⟨data, rfl⟩
  hash h := by cases h
  list h := by cases h

theorem wellFormed_hash {fs : Fields} (hne : fs ≠ []) (hfs : fs.keys.Nodup) :
    Entry.WellFormed ⟨.hash fs, d⟩ where
  string h := by cases h
  hash _ := ⟨fs, rfl, hne, hfs⟩
  list h := by cases h

theorem wellFormed_list {items : List Bytes} (hne : items ≠ []) : Entry.WellFormed ⟨.list items, d⟩ where
  string h := by cases h
  hash h := by cases h
  list _ := ⟨items, rfl, hne⟩

theorem fields_of_wellFormed {fs : Fields} (h : Entry.WellFormed ⟨.hash fs, d⟩) : fs ≠ [] ∧ fs.keys.Nodup := by
  obtain ⟨gs, hv, hgs⟩ := h.hash rfl
  obtain rfl := Value.hash.inj hv
  exact hgs

theorem items_of_wellFormed {items : List Bytes} (h : Entry.WellFormed ⟨.list items, d⟩) : items ≠ [] := by
  obtain ⟨items', hv, hne⟩ := h.list rfl
  obtain rfl := Value.list.inj hv
  exact hne

theorem nodup_eraseFields (names : List Text) {fs : Fields} (hfs : fs.keys.Nodup) :
    (eraseFields names fs).2.keys.Nodup := by
  induction names generalizing fs with
  | nil => exact hfs
  | cons f names ih =>
    rw [eraseFields_cons]
    split
    · exact ih (Bindings.nodup_erase hfs)
    · exact ih hfs

theorem upheld_wellFormed : Upheld now Entry.WellFormed where
  string data := wellFormed_string data
  lasting h _ _ _ := h.redated _
  persistent h := h.redated none
  fields kvs h := by
    obtain ⟨hne, hfs⟩ := fields_of_wellFormed h
    exact wellFormed_hash (Bindings.putAll_ne_nil (.inl hne)) (Bindings.nodup_putAll kvs hfs)
  newFields {kvs} hk := wellFormed_hash (Bindings.putAll_ne_nil (.inr hk)) (Bindings.nodup_putAll kvs List.nodup_nil)
  fieldsLeft names h hne := wellFormed_hash hne (nodup_eraseFields names (fields_of_wellFormed h).2)
  items _ hne := wellFormed_list hne
  newItems hne := wellFormed_list hne

theorem live?_of_fieldsOf_nil (hs : s.Every Entry.WellFormed) (h : fieldsOf (s.live? now k) = .ok []) :
    s.live? now k = none := by
  cases hx : s.live? now k with
  | none => rfl
  | some e =>
    have he : e.WellFormed := hs.live? hx
    rw [hx] at h
    obtain ⟨v, d⟩ := e
    cases v with
    | hash fs => exact absurd (Except.ok.inj h) (fields_of_wellFormed he).1
    | string _ => cases h
    | list _ => cases h

theorem live?_of_itemsOf_nil (hs : s.Every Entry.WellFormed) (h : itemsOf (s.live? now k) = .ok []) :
    s.live? now k = none := by
  cases hx : s.live? now k with
  | none => rfl
  | some e =>
    have he : e.WellFormed := hs.live? hx
    rw [hx] at h
    obtain ⟨v, d⟩ := e
    cases v with
    | list items => exact absurd (Except.ok.inj h) (items_of_wellFormed he)
    | string _ => cases h
    | hash _ => cases h

end Keyspace

end RespStore
