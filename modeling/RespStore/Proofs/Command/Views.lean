import RespStore.Proofs.Command.Representation
import RespStore.Proofs.Keyspace.Reading

/-! What is live, asked in different ways. A question may take away an expired entry that the next one would still have
found. But the live entries stay as they are, and every answer is read off them alone. -/

namespace RespStore

theorem Text.matchesGlob_star (k : Text) : matchesGlob [star] k = true := by
  rw [matchesGlob, Glob.accepts, if_pos rfl]

namespace Keyspace

def Stats.count (t : Stats) : Kind → Nat
  | .string => t.strings
  | .hash => t.hashes
  | .list => t.lists

def Operation.isView {α : Type} : Operation α → Bool
  | countExisting _ | typeOf _ | timeToLive _ | keysMatching _ | size | stats => true
  | _ => false

/-- What a keyspace becomes while questions are asked of it, all at one time. -/
inductive Asked (now : Instant) (s : Keyspace) : Keyspace → Prop
  | nothing : Asked now s s
  | more {α : Type} {t : Keyspace} (o : Operation α) : o.isView = true → Asked now s t →
      Asked now s (o.call now t).2

structure ViewsAgree (now : Instant) (t u : Keyspace) : Prop where
  exists_iff : ∀ k, (t.countExisting now [k]).1 = 1 ↔ (u.typeOf now k).1 ≠ none
  typeOf_iff : ∀ k, (t.typeOf now k).1 ≠ none ↔ (u.timeToLive now k).1 ≠ .ok (-2)
  timeToLive_iff : ∀ k, (t.timeToLive now k).1 ≠ .ok (-2) ↔ k ∈ u.keysMatching now [Text.star]
  lasting_iff : ∀ k, (t.timeToLive now k).1 = .ok (-1) ↔ ∃ e, u.live? now k = some e ∧ e.deadline = none
  nodup_keys : ∀ p, (t.keysMatching now p).Nodup
  mem_keys_iff : ∀ p k, k ∈ t.keysMatching now p ↔ k ∈ u.keysMatching now [Text.star] ∧ p.matchesGlob k = true
  size_eq : t.size now = (u.keysMatching now [Text.star]).length
  active_eq : (t.stats now).active = u.size now
  kinds_eq : (t.stats now).strings + (t.stats now).hashes + (t.stats now).lists = u.size now
  count_eq : ∀ kind, ∃ ks : List Text, ks.Nodup ∧ (∀ k, k ∈ ks ↔ (t.typeOf now k).1 = some kind) ∧
    (u.stats now).count kind = ks.length
  expired_eq : (t.stats now).expired = (t.stats now).total - (t.stats now).active ∧
    (t.stats now).active ≤ (t.stats now).total

variable {α : Type} {now d : Instant} {k : Text} {s t u : Keyspace}

section Key

theorem countExisting_eq_one_iff : (s.countExisting now [k]).1 = 1 ↔ s.live? now k ≠ none := by
  have hcount : (s.countExisting now [k]).1 = 0 + (countOne (s.live? now k)).1 := rfl
  rw [hcount]
  cases s.live? now k <;> simp [countOne]

theorem typeOf_fst : (s.typeOf now k).1 = (s.live? now k).map (·.value.kind) := rfl

theorem typeOf_ne_none_iff : (s.typeOf now k).1 ≠ none ↔ s.live? now k ≠ none := by
  rw [typeOf_fst, ne_eq, Option.map_eq_none_iff]

theorem remaining_nonneg {n : Int} (h : remaining now d = .ok n) : 0 ≤ n := by
  obtain ⟨negative, m, hsub⟩ := exists_finite_of_remaining h
  rw [remaining, hsub] at h
  obtain rfl := Except.ok.inj h
  exact le_max_left 0 _

theorem timeToLive_cases (now : Instant) (k : Text) (s : Keyspace) :
    (s.live? now k = none ∧ (s.timeToLive now k).1 = .ok (-2)) ∨
      (∃ v, s.live? now k = some ⟨v, none⟩ ∧ (s.timeToLive now k).1 = .ok (-1)) ∨
      ∃ v d, s.live? now k = some ⟨v, some d⟩ ∧ ∀ n, (s.timeToLive now k).1 = .ok n → 0 ≤ n := by
  rw [timeToLive, visit]
  cases s.live? now k with
  | none => exact .inl ⟨rfl, rfl⟩
  | some e =>
    obtain ⟨v, _ | d⟩ := e
    · exact .inr (.inl ⟨v, rfl, rfl⟩)
    · exact .inr (.inr ⟨v, d, rfl, fun n h => remaining_nonneg h⟩)

theorem timeToLive_eq_absent_iff : (s.timeToLive now k).1 = .ok (-2) ↔ s.live? now k = none := by
  rcases timeToLive_cases now k s with ⟨hx, hn⟩ | ⟨v, hx, hn⟩ | ⟨v, d, hx, hn⟩
  · simp [hx, hn]
  · simp [hx, hn]
  · simp only [hx, reduceCtorEq, iff_false]
    intro h
    exact absurd (hn _ h) (by decide)

theorem timeToLive_eq_lasting_iff :
    (s.timeToLive now k).1 = .ok (-1) ↔ ∃ e, s.live? now k = some e ∧ e.deadline = none := by
  rcases timeToLive_cases now k s with ⟨hx, hn⟩ | ⟨v, hx, hn⟩ | ⟨v, d, hx, hn⟩
  · simp [hx, hn]
  · simp [hx, hn]
  · simp only [hx, Option.some.injEq, exists_eq_left', reduceCtorEq, iff_false]
    intro h
    exact absurd (hn _ h) (by decide)

end Key

section Whole

theorem mem_keys_filter_liveEntries (hs : s.keys.Nodup) (p : Text × Entry → Bool) :
    k ∈ Bindings.keys ((s.liveEntries now).filter p) ↔ ∃ e, s.live? now k = some e ∧ p (k, e) = true := by
  have hlive : (s.liveEntries now).keys.Nodup := Bindings.nodup_filter hs
  simp only [Bindings.keys, List.mem_map, List.mem_filter, ← find?_liveEntries hs,
    Bindings.find?_eq_some_iff hlive]
  constructor
  · rintro ⟨⟨j, e⟩, hmem, rfl⟩
    exact ⟨e, hmem⟩
  · rintro ⟨e, hmem⟩
    exact ⟨(k, e), hmem, rfl⟩

theorem mem_everyKey (hs : s.keys.Nodup) : k ∈ s.keysMatching now [Text.star] ↔ s.live? now k ≠ none := by
  rw [mem_keysMatching hs, ← Option.ne_none_iff_exists']
  exact and_iff_left (Text.matchesGlob_star k)

theorem nodup_keysMatching (hs : s.keys.Nodup) (p : Text) : (s.keysMatching now p).Nodup := by
  rw [keysMatching_eq]
  exact Bindings.nodup_filter (Bindings.nodup_filter hs)

theorem length_everyKey : (s.keysMatching now [Text.star]).length = s.size now := by
  rw [keysMatching_eq, size_eq, Bindings.keys, List.length_map]
  simp only [Text.matchesGlob_star, List.filter_true]

theorem total_eq : (s.stats now).total = s.size now + (s.stats now).expired := by
  have hlength : s.length = s.countP (isLive now) + s.countP fun p => decide ¬isLive now p = true :=
    List.length_eq_countP_add_countP (isLive now)
  simp only [Bool.not_eq_true, Bool.decide_eq_false] at hlength
  exact hlength

theorem countKind_eq (kind : Kind) :
    s.countKind now kind = ((s.liveEntries now).filter (·.2.value.kind = kind)).length := by
  rw [countKind, List.countP_eq_length_filter, liveEntries, List.filter_filter]
  simp only [Bool.and_comm]

theorem count_stats (kind : Kind) : (s.stats now).count kind = s.countKind now kind := by cases kind <;> rfl

theorem sum_kinds :
    (s.stats now).strings + (s.stats now).hashes + (s.stats now).lists = s.size now := by
  have hsum : ∀ es : Keyspace, (es.filter (·.2.value.kind = .string)).length +
      (es.filter (·.2.value.kind = .hash)).length + (es.filter (·.2.value.kind = .list)).length = es.length := by
    intro es
    induction es with
    | nil => rfl
    | cons p es ih =>
      rw [List.length_cons, ← ih]
      cases hp : p.2.value.kind <;> simp [hp] <;> omega
  rw [size_eq, ← hsum (s.liveEntries now), ← countKind_eq, ← countKind_eq, ← countKind_eq]
  rfl

theorem exists_keys_of_kind (hs : s.keys.Nodup) (kind : Kind) :
    ∃ ks : List Text, ks.Nodup ∧ (∀ k, k ∈ ks ↔ (s.typeOf now k).1 = some kind) ∧
      (s.stats now).count kind = ks.length := by
  refine ⟨Bindings.keys ((s.liveEntries now).filter (·.2.value.kind = kind)),
    Bindings.nodup_filter (Bindings.nodup_filter hs), fun k => ?_, ?_⟩
  · rw [mem_keys_filter_liveEntries hs, typeOf_fst, Option.map_eq_some_iff]
    simp only [decide_eq_true_eq]
  · rw [count_stats, countKind_eq, Bindings.keys, List.length_map]

end Whole

theorem SameLive.stats_count (h : SameLive now t u) (kind : Kind) :
    (t.stats now).count kind = (u.stats now).count kind := by
  rw [count_stats, count_stats, countKind_eq, countKind_eq]
  exact (h.perm.filter _).length_eq

theorem viewsAgree (h : SameLive now t u) : ViewsAgree now t u where
  exists_iff k := by rw [countExisting_eq_one_iff, typeOf_ne_none_iff, h.live?_eq]
  typeOf_iff k := by rw [typeOf_ne_none_iff, ne_eq, ne_eq, timeToLive_eq_absent_iff, h.live?_eq]
  timeToLive_iff k := by rw [mem_everyKey h.nodup_right, ne_eq, timeToLive_eq_absent_iff, h.live?_eq]
  lasting_iff k := by rw [timeToLive_eq_lasting_iff, h.live?_eq]
  nodup_keys := nodup_keysMatching h.nodup_left
  mem_keys_iff p k := by
    rw [mem_keysMatching h.nodup_left, mem_everyKey h.nodup_right, ← Option.ne_none_iff_exists', h.live?_eq]
  size_eq := by rw [length_everyKey, h.size_eq]
  active_eq := by
    have htotal : (t.stats now).total = t.size now + (t.stats now).expired := total_eq
    rw [Stats.active, htotal, Nat.add_sub_cancel, h.size_eq]
  kinds_eq := sum_kinds.trans h.size_eq
  count_eq kind := by
    rw [← h.stats_count kind]
    exact exists_keys_of_kind h.nodup_left kind
  expired_eq := by
    have htotal : (t.stats now).total = t.size now + (t.stats now).expired := total_eq
    rw [Stats.active]
    omega

theorem trimmed_typeOf : Trimmed now [k] s (s.typeOf now k).2 := trimmed_visit (fun _ => rfl) k s

theorem trimmed_timeToLive : Trimmed now [k] s (s.timeToLive now k).2 :=
  trimmed_visit (by rintro (_ | ⟨v, _ | d⟩) <;> rfl) k s

theorem trimmed_view {o : Operation α} (ho : o.isView = true) (s : Keyspace) :
    ∃ ks, Trimmed now ks s (o.call now s).2 := by
  cases o with
  | countExisting ks => exact ⟨ks, trimmed_visitEach (fun x => by cases x <;> rfl) ks s⟩
  | typeOf k => exact ⟨[k], trimmed_typeOf⟩
  | timeToLive k => exact ⟨[k], trimmed_timeToLive⟩
  | keysMatching | size | stats => exact ⟨[], .refl now [] s⟩
  | _ => cases ho

theorem Asked.sameLive (h : Asked now s t) (hs : s.keys.Nodup) : SameLive now s t := by
  induction h with
  | nothing => exact .refl hs
  | more o ho _ ih =>
    obtain ⟨ks, htrimmed⟩ := trimmed_view ho _
    exact ih.trans ⟨ih.nodup_right, htrimmed.nodup ih.nodup_right, fun k => (htrimmed.live? k).symm⟩

theorem asked_countExisting (now : Instant) (ks : List Text) (s : Keyspace) :
    Asked now s (s.countExisting now ks).2 := .more (.countExisting ks) rfl .nothing

theorem Asked.exists_timeToLive (h : Asked now s t) (hs : s.keys.Nodup) (hnow : now ≠ .nan)
    (htell : s.Every (Entry.Tellable now)) (k : Text) : ∃ n, (t.timeToLive now k).1 = .ok n := by
  have hfaultless : Faultless (s.timeToLive now k) := faultless_timeToLive htell hnow
  have hsame : (t.timeToLive now k).1 = (s.timeToLive now k).1 := (h.sameLive hs).symm.visit_fst k _
  rw [hsame]
  cases hx : (s.timeToLive now k).1 with
  | ok n => exact ⟨n, rfl⟩
  | error e =>
    obtain ⟨⟨v, _ | d⟩, -, hd⟩ := exists_live_of_error ⟨-2, rfl⟩ hx
    · cases hd
    · obtain ⟨⟨f, rfl⟩, -⟩ := untold_of_remaining hd
      exact absurd hx (hfaultless f)

end Keyspace

namespace Moment

open Keyspace Dispatch

/-- Whatever requests have come before, and whatever the clock shows when the questions are asked, all answers agree, in
whatever order they are asked. If the clock has not gone back, what is left of a lifetime is always told. -/
theorem views_agree (start now : Instant) (es : List Event) :
    let m := (Moment.mk start []).after es
    (∀ t u, Asked now m.keyspace t → Asked now m.keyspace u → ViewsAgree now t u) ∧
      (start ≠ .nan → Forward start es → m.now.le now = true →
        ∀ t, Asked now m.keyspace t → ∀ k, ∃ n, (t.timeToLive now k).1 = .ok n) := by
  intro m
  have hm : m.Coherent := coherent_after start es
  constructor
  · intro t u ht hu
    exact viewsAgree ((ht.sameLive hm.nodup).symm.trans (hu.sameLive hm.nodup))
  · intro hstart hes hnow t ht k
    have hsound : m.Sound := sound_kept.after (sound_empty hstart) hes
    have hlater : (m.step (.clock now)).Sound := sound_kept.clock hsound hnow
    exact ht.exists_timeToLive hm.nodup hlater.now_ne_nan hlater.tellable k

def fleeting : List Event :=
  [.request (.of .setex [[107], [49], [118]]), .request (.of .hset [[104], [102], [118]])]

def twoSeconds : Instant := .ofUnits false (2 * Binary64.one)

theorem views_agree_fleeting :
    let s := ((Moment.mk .zero []).after fleeting).keyspace
    let t := (s.countExisting twoSeconds [keyOf [107]]).2
    s.length = 2 ∧ t.length = 1 ∧ ViewsAgree twoSeconds s t ∧ ViewsAgree twoSeconds t s ∧
      ∃ n, (t.timeToLive twoSeconds (keyOf [104])).1 = .ok n := by
  have hforward : Forward .zero fleeting := trivial
  have hstart : Binary64.zero ≠ .nan := by decide
  have hnow : Binary64.zero.le twoSeconds = true := by decide +kernel
  obtain ⟨hagree, htold⟩ := views_agree .zero twoSeconds fleeting
  have ht := asked_countExisting twoSeconds [keyOf [107]] ((Moment.mk .zero []).after fleeting).keyspace
  exact ⟨by decide +kernel, by decide +kernel, hagree _ _ .nothing ht, hagree _ _ ht .nothing,
    htold hstart hforward hnow _ ht (keyOf [104])⟩

end Moment

end RespStore
