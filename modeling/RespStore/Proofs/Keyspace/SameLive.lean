import RespStore.Proofs.Keyspace.Live

/-! Keyspaces with the same live entries. Expired entries and the order of keys may differ, and no visit,
assignment or sweep can tell. -/

namespace RespStore.Keyspace

structure SameLive (now : Instant) (s t : Keyspace) : Prop where
  nodup_left : s.keys.Nodup
  nodup_right : t.keys.Nodup
  live?_eq : ∀ k, s.live? now k = t.live? now k

namespace SameLive

variable {now : Instant} {s t u : Keyspace}

theorem refl (hs : s.keys.Nodup) : SameLive now s s := ⟨hs, hs, fun _ => rfl⟩

theorem symm (h : SameLive now s t) : SameLive now t s :=
  ⟨h.nodup_right, h.nodup_left, fun k => (h.live?_eq k).symm⟩

theorem trans (h : SameLive now s t) (h' : SameLive now t u) : SameLive now s u :=
  ⟨h.nodup_left, h'.nodup_right, fun k => (h.live?_eq k).trans (h'.live?_eq k)⟩

theorem perm (h : SameLive now s t) : (s.liveEntries now).Perm (t.liveEntries now) := by
  apply Bindings.perm_of_find?_eq (Bindings.nodup_filter h.nodup_left)
    (Bindings.nodup_filter h.nodup_right)
  intro k
  have hs : (s.liveEntries now).find? k = s.live? now k := find?_liveEntries h.nodup_left
  have ht : (t.liveEntries now).find? k = t.live? now k := find?_liveEntries h.nodup_right
  exact hs.trans ((h.live?_eq k).trans ht.symm)

theorem at_later {later : Instant} (h : SameLive now s t) (hl : now.le later = true) : SameLive later s t := by
  refine ⟨h.nodup_left, h.nodup_right, fun k => ?_⟩
  rw [live?_later hl, live?_later hl, h.live?_eq k]

theorem put (h : SameLive now s t) (k : Text) (e : Entry) :
    SameLive now (Bindings.put k e s) (Bindings.put k e t) := by
  refine ⟨Bindings.nodup_put h.nodup_left, Bindings.nodup_put h.nodup_right, fun j => ?_⟩
  rw [live?_put, live?_put, h.live?_eq j]

theorem visit_fst {α : Type} (h : SameLive now s t) (k : Text) (f : Option Entry → α × Change) :
    (s.visit now k f).1 = (t.visit now k f).1 := by
  rw [visit, visit, h.live?_eq k]

theorem visit {α : Type} (h : SameLive now s t) (k : Text) (f : Option Entry → α × Change) :
    SameLive now (s.visit now k f).2 (t.visit now k f).2 := by
  refine ⟨nodup_visit f h.nodup_left, nodup_visit f h.nodup_right, fun j => ?_⟩
  rw [live?_visit, live?_visit, h.live?_eq j, h.live?_eq k]

theorem visitEach (h : SameLive now s t) (f : Option Entry → Nat × Change) (ks : List Text) :
    (s.visitEach now f ks).1 = (t.visitEach now f ks).1 ∧
      SameLive now (s.visitEach now f ks).2 (t.visitEach now f ks).2 := by
  induction ks generalizing s t with
  | nil => exact ⟨rfl, h⟩
  | cons k ks ih =>
    obtain ⟨hcount, hrest⟩ := ih (h.visit k f)
    rw [visitEach_cons, visitEach_cons, h.visit_fst k f, hcount]
    exact ⟨rfl, hrest⟩

theorem sweep (hs : s.keys.Nodup) : SameLive now (s.sweep now).2 s :=
  ⟨Bindings.nodup_filter hs, hs, fun _ => live?_liveEntries hs⟩

theorem flush (s t : Keyspace) : SameLive now s.flush t.flush := refl List.nodup_nil

theorem size_eq (h : SameLive now s t) : s.size now = t.size now := by
  rw [Keyspace.size_eq, Keyspace.size_eq, h.perm.length_eq]

theorem keysMatching_perm (h : SameLive now s t) (p : Text) :
    (s.keysMatching now p).Perm (t.keysMatching now p) := by
  rw [keysMatching_eq, keysMatching_eq]
  exact (h.perm.filter _).map _

end SameLive

end RespStore.Keyspace
