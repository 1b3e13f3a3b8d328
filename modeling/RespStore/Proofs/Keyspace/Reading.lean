import RespStore.Proofs.Keyspace.Live

/-! Looking without changing. Whoever looks at keys and keeps what is there takes away no entry but those that have
expired, and leaves all others as they are and where they are. -/

namespace RespStore.Keyspace

/-- What is left of a keyspace when expired entries of some keys have been taken away. -/
structure Trimmed (now : Instant) (ks : List Text) (s t : Keyspace) : Prop where
  sublist : t.Sublist s
  find? : ∀ k, t.find? k = s.find? k ∨
    k ∈ ks ∧ t.find? k = none ∧ ∃ e, s.find? k = some e ∧ e.isExpired now = true

variable {α : Type} {now : Instant} {k : Text} {ks js : List Text} {s t u : Keyspace}

namespace Trimmed

theorem refl (now : Instant) (ks : List Text) (s : Keyspace) : Trimmed now ks s s :=
  ⟨List.Sublist.refl s, fun _ => .inl rfl⟩

theorem trans (h : Trimmed now ks s t) (h' : Trimmed now ks t u) : Trimmed now ks s u := by
  refine ⟨h'.sublist.trans h.sublist, fun k => ?_⟩
  rcases h'.find? k with hu | ⟨hk, hu, e, ht, he⟩
  · rw [hu]
    exact h.find? k
  · rcases h.find? k with hs | ⟨-, hnone, -⟩
    · exact .inr ⟨hk, hu, e, hs.symm.trans ht, he⟩
    · cases hnone.symm.trans ht

theorem mono (h : Trimmed now js s t) (hjs : js ⊆ ks) : Trimmed now ks s t :=
  ⟨h.sublist, fun k => (h.find? k).imp_right fun ⟨hk, hrest⟩ => ⟨hjs hk, hrest⟩⟩

theorem live? (h : Trimmed now ks s t) (k : Text) : t.live? now k = s.live? now k := by
  unfold Keyspace.live?
  rcases h.find? k with hk | ⟨-, ht, e, hs, he⟩
  · rw [hk]
  · rw [ht, hs, Option.filter_some, he]
    rfl

theorem nodup (h : Trimmed now ks s t) (hs : s.keys.Nodup) : t.keys.Nodup :=
  hs.sublist (h.sublist.map _)

end Trimmed

theorem trimmed_settle (now : Instant) (k : Text) (s : Keyspace) : Trimmed now [k] s (s.settle now k) := by
  constructor
  · unfold settle
    split
    · exact List.filter_sublist
    · exact List.Sublist.refl s
  · intro j
    rw [find?_settle]
    by_cases hj : j = k
    · subst hj
      rw [if_pos rfl]
      cases hs : s.find? j with
      | none => simp [Keyspace.live?, hs]
      | some e =>
        cases he : e.isExpired now with
        | true => exact .inr ⟨List.mem_cons_self, by simp [Keyspace.live?, hs, he], e, rfl, he⟩
        | false => exact .inl (by simp [Keyspace.live?, hs, he])
    · exact .inl (if_neg hj)

theorem trimmed_visit {f : Option Entry → α × Change} (hf : ∀ x, (f x).2 = .keep) (k : Text) (s : Keyspace) :
    Trimmed now [k] s (s.visit now k f).2 := by
  have hkeep : (s.visit now k f).2 = s.settle now k := by
    rw [visit, hf]
    rfl
  rw [hkeep]
  exact trimmed_settle now k s

theorem trimmed_visitEach {f : Option Entry → Nat × Change} (hf : ∀ x, (f x).2 = .keep) (ks : List Text)
    (s : Keyspace) : Trimmed now ks s (s.visitEach now f ks).2 := by
  induction ks generalizing s with
  | nil => exact .refl now [] s
  | cons k ks ih =>
    have hk : Trimmed now (k :: ks) s (s.visit now k f).2 :=
      (trimmed_visit hf k s).mono (List.cons_subset_cons k (List.nil_subset ks))
    rw [visitEach_cons]
    exact hk.trans ((ih (s.visit now k f).2).mono (List.subset_cons_self k ks))

end RespStore.Keyspace
