import RespStore.Keyspace.Keys
import RespStore.Proofs.Keyspace.Lookup
import RespStore.Proofs.Number.Order

/-! Live entries, and what visits leave of them. A visit decides by the live entry of its key alone, and
leaves at that key what it decided on. -/

namespace RespStore

theorem Entry.isExpired_mono {now later : Instant} (h : now.le later = true) {e : Entry}
    (he : e.isExpired now = true) : e.isExpired later = true := by
  unfold isExpired at he ⊢
  cases hd : e.deadline with
  | none => simp [hd] at he
  | some d =>
    rw [hd] at he
    exact Binary64.le_trans he h

def Change.left (e : Option Entry) : Change → Option Entry
  | .keep => e
  | .store e => some e
  | .drop => none

theorem Change.left_not_expired {now : Instant} {c : Change} {x : Option Entry}
    (hx : ∀ e ∈ x, e.isExpired now = false) (hc : ∀ e, c = .store e → e.deadline = x.bind (·.deadline)) :
    ∀ e ∈ c.left x, e.isExpired now = false := by
  intro e he
  cases c with
  | keep => exact hx e he
  | drop => cases he
  | store y =>
    obtain rfl := Option.some.inj he
    rw [Entry.isExpired, hc y rfl]
    cases x with
    | none => rfl
    | some z => exact hx z rfl

namespace Keyspace

variable {now later : Instant} {j k : Text} {s : Keyspace}

theorem live?_not_expired : ∀ e ∈ s.live? now k, e.isExpired now = false := by
  intro e he
  obtain ⟨-, hlive⟩ := Option.filter_eq_some_iff.mp he
  simpa using hlive

theorem live?_of_not_expired (h : ∀ e ∈ s.find? k, e.isExpired now = false) : s.live? now k = s.find? k := by
  unfold live?
  cases hx : s.find? k with
  | none => rfl
  | some e => rw [Option.filter_some, h e hx]; rfl

theorem settle_of_not_expired (h : ∀ e ∈ s.find? k, e.isExpired now = false) : s.settle now k = s := by
  unfold settle
  cases hx : s.find? k with
  | none => rfl
  | some e => rw [Option.any_some, h e hx]; rfl

theorem find?_change (c : Change) :
    (s.change k c).find? j = if j = k then c.left (s.find? k) else s.find? j := by
  by_cases h : j = k
  · subst h
    cases c <;> simp [change, Change.left]
  · rw [if_neg h]
    cases c with
    | keep => rfl
    | store e => exact Bindings.find?_put_of_ne h e s
    | drop => exact Bindings.find?_erase_of_ne h s

theorem nodup_change (c : Change) (hs : s.keys.Nodup) : (s.change k c).keys.Nodup := by
  cases c with
  | keep => exact hs
  | store e => exact Bindings.nodup_put hs
  | drop => exact Bindings.nodup_erase hs

theorem find?_settle :
    (s.settle now k).find? j = if j = k then s.live? now k else s.find? j := by
  unfold settle live?
  cases hk : s.find? k with
  | none =>
    rw [Option.any_none, if_neg Bool.false_ne_true, Option.filter_none]
    split <;> simp_all
  | some e =>
    rw [Option.any_some, Option.filter_some]
    cases he : e.isExpired now with
    | true =>
      by_cases h : j = k
      · simp [h]
      · simp [h, Bindings.find?_erase_of_ne h s]
    | false => split <;> simp_all

theorem nodup_settle (hs : s.keys.Nodup) : (s.settle now k).keys.Nodup := by
  unfold settle
  split
  · exact Bindings.nodup_erase hs
  · exact hs

theorem settle_of_live? {e : Entry} (he : s.live? now k = some e) : s.settle now k = s := by
  have hfind : s.find? k = some e := (Option.filter_eq_some_iff.mp he).1
  refine settle_of_not_expired ?_
  rw [hfind, ← he]
  exact live?_not_expired

variable {α : Type} (f : Option Entry → α × Change)

theorem find?_visit :
    (s.visit now k f).2.find? j =
      if j = k then (f (s.live? now k)).2.left (s.live? now k) else s.find? j := by
  rw [visit, find?_change, find?_settle, if_pos rfl, find?_settle]
  split <;> simp_all

theorem find?_visit_not_expired
    (hf : ∀ e, (f (s.live? now k)).2 = .store e → e.deadline = (s.live? now k).bind (·.deadline)) :
    ∀ e ∈ (s.visit now k f).2.find? k, e.isExpired now = false := by
  rw [find?_visit, if_pos rfl]
  exact Change.left_not_expired live?_not_expired hf

theorem nodup_visit (hs : s.keys.Nodup) : (s.visit now k f).2.keys.Nodup :=
  nodup_change _ (nodup_settle hs)

theorem live?_visit :
    (s.visit now k f).2.live? now j =
      if j = k then ((f (s.live? now k)).2.left (s.live? now k)).filter (!·.isExpired now)
      else s.live? now j := by
  unfold live?
  rw [find?_visit]
  split <;> rfl

theorem live?_put (e : Entry) :
    live? now j (s.put k e) = if j = k then (some e).filter (!·.isExpired now) else s.live? now j := by
  unfold live?
  by_cases h : j = k
  · subst h
    rw [Bindings.find?_put_self, if_pos rfl]
  · rw [Bindings.find?_put_of_ne h, if_neg h]

theorem live?_later (h : now.le later = true) :
    s.live? later k = (s.live? now k).filter (!·.isExpired later) := by
  unfold live?
  rw [Option.filter_filter]
  refine congrArg (Option.filter · _) (funext fun e => ?_)
  cases he : e.isExpired now with
  | true => simp [Entry.isExpired_mono h he]
  | false => simp

def liveEntries (now : Instant) (s : Keyspace) : Keyspace := s.filter (isLive now)

theorem find?_liveEntries (hs : s.keys.Nodup) : (s.liveEntries now).find? k = s.live? now k :=
  Bindings.find?_filter _ hs

theorem live?_liveEntries (hs : s.keys.Nodup) :
    (s.liveEntries now).live? now k = s.live? now k := by
  rw [live?, find?_liveEntries hs, live?, Option.filter_filter]
  simp

theorem size_eq : s.size now = (s.liveEntries now).length := List.countP_eq_length_filter

theorem keysMatching_eq (p : Text) :
    s.keysMatching now p = Bindings.keys ((s.liveEntries now).filter (p.matchesGlob ·.1)) := by
  rw [keysMatching, liveEntries, List.filter_filter]
  simp only [Bool.and_comm]

theorem mem_keysMatching_of_live {p : Text} {e : Entry} (he : s.live? now k = some e)
    (hp : p.matchesGlob k = true) : k ∈ s.keysMatching now p := by
  obtain ⟨hfind, hlive⟩ := Option.filter_eq_some_iff.mp he
  have hk : (isLive now (k, e) && p.matchesGlob k) = true := Bool.and_eq_true_iff.mpr ⟨hlive, hp⟩
  exact List.mem_map.mpr ⟨(k, e), List.mem_filter.mpr ⟨Bindings.mem_of_find? hfind, hk⟩, rfl⟩

theorem mem_keysMatching (hs : s.keys.Nodup) {p : Text} :
    k ∈ s.keysMatching now p ↔ (∃ e, s.live? now k = some e) ∧ p.matchesGlob k = true := by
  constructor
  · intro h
    have hlive : (s.liveEntries now).keys.Nodup := Bindings.nodup_filter hs
    rw [keysMatching_eq, Bindings.keys, List.mem_map] at h
    obtain ⟨⟨k', e⟩, hm, rfl⟩ := h
    obtain ⟨hm, hp⟩ := List.mem_filter.mp hm
    refine ⟨⟨e, ?_⟩, hp⟩
    rw [← find?_liveEntries hs]
    exact Bindings.find?_of_mem hlive hm
  · rintro ⟨⟨e, he⟩, hp⟩
    exact mem_keysMatching_of_live he hp

end Keyspace

end RespStore
