import RespStore.Proofs.Keyspace.Deadline
import RespStore.Proofs.Keyspace.Every
import RespStore.Proofs.Keyspace.Live

/-! Deadlines of live entries. An operation either says which deadline a key shall have, or leaves to what is alive
afterwards the deadline of what was alive before under the same key, or none. -/

namespace RespStore.Keyspace

def deadlineOf (now : Instant) (k : Text) (s : Keyspace) : Option Instant := (s.live? now k).bind (·.deadline)

/-- A live entry has the deadline that its key was given, or else the one that its key had before. -/
def Dated (now : Instant) (k : Text) (given : Option (Option Instant)) (s t : Keyspace) : Prop :=
  ∀ e, t.live? now k = some e → e.deadline = given.getD (s.deadlineOf now k)

def ending (now : Instant) (seconds : Int) : Option Instant :=
  if 0 < seconds then (Binary64.ofInt? seconds).map now.add else none

variable {α : Type} {now : Instant} {j k : Text} {s t : Keyspace}

theorem dated_of_live? (h : ∀ e, t.live? now k = some e → s.live? now k = some e) : Dated now k none s t := by
  intro e he
  rw [Option.getD_none, deadlineOf, h e he]
  rfl

theorem dated_refl (now : Instant) (k : Text) (s : Keyspace) : Dated now k none s s := dated_of_live? fun _ => id

theorem live?_put_self {e x : Entry} (h : live? now k (s.put k e) = some x) : x = e ∧ e.isExpired now = false := by
  rw [live?_put, if_pos rfl, Option.filter_eq_some_iff] at h
  obtain ⟨he, hlive⟩ := h
  obtain rfl := Option.some.inj he
  exact ⟨rfl, by simpa using hlive⟩

theorem live?_put_of_ne (h : k ≠ j) (e : Entry) : live? now k (s.put j e) = s.live? now k := by
  rw [live?_put, if_neg h]

theorem dated_put (e : Entry) : Dated now k (if j = k then some e.deadline else none) s (s.put j e) := by
  by_cases hk : j = k
  · subst hk
    intro x hx
    rw [if_pos rfl, (live?_put_self hx).1]
    rfl
  · rw [if_neg hk]
    refine dated_of_live? fun x hx => ?_
    rwa [live?_put_of_ne (Ne.symm hk)] at hx

theorem dated_put_expired {e : Entry} (he : e.isExpired now = true) : Dated now k none s (s.put j e) := by
  refine dated_of_live? fun x hx => ?_
  by_cases hk : k = j
  · subst hk
    cases he.symm.trans (live?_put_self hx).2
  · rwa [live?_put_of_ne hk] at hx

theorem live?_visit_of_some {f : Option Entry → α × Change} {e : Entry} (h : (s.visit now k f).2.live? now k = some e) :
    (f (s.live? now k)).2.left (s.live? now k) = some e := by
  rw [live?_visit, if_pos rfl] at h
  exact (Option.filter_eq_some_iff.mp h).1

theorem live?_visit_of_ne {f : Option Entry → α × Change} (h : k ≠ j) :
    (s.visit now j f).2.live? now k = s.live? now k := by rw [live?_visit, if_neg h]

theorem dated_visit {f : Option Entry → α × Change}
    (hf : ∀ {x e}, (f x).2 = .store e → e.deadline = x.bind (·.deadline)) :
    Dated now k none s (s.visit now j f).2 := by
  by_cases hk : k = j
  · subst hk
    intro e he
    have hleft := live?_visit_of_some he
    rw [Option.getD_none, deadlineOf]
    cases hc : (f (s.live? now k)).2 with
    | keep =>
      rw [hc] at hleft
      rw [show s.live? now k = some e from hleft]
      rfl
    | store x =>
      rw [hc] at hleft
      obtain rfl := Option.some.inj hleft
      exact hf hc
    | drop =>
      rw [hc] at hleft
      cases hleft
  · refine dated_of_live? fun e he => ?_
    rwa [live?_visit_of_ne hk] at he

theorem dated_visit_given {f : Option Entry → α × Change} {d : Option Instant}
    (hf : ∀ {x e}, (f x).2.left x = some e → e.deadline = d) :
    Dated now k (if j = k then some d else none) s (s.visit now j f).2 := by
  by_cases hk : j = k
  · subst hk
    intro e he
    rw [if_pos rfl]
    exact hf (live?_visit_of_some he)
  · rw [if_neg hk]
    refine dated_of_live? fun e he => ?_
    rwa [live?_visit_of_ne (Ne.symm hk)] at he

theorem live?_of_visitEach {f : Option Entry → Nat × Change} (hf : ∀ x e, (f x).2 ≠ .store e) (ks : List Text)
    {e : Entry} (h : (s.visitEach now f ks).2.live? now k = some e) : s.live? now k = some e := by
  induction ks generalizing s with
  | nil => exact h
  | cons i ks ih =>
    rw [visitEach_cons] at h
    have hvisit : (s.visit now i f).2.live? now k = some e := ih h
    by_cases hk : k = i
    · subst hk
      have hleft := live?_visit_of_some hvisit
      cases hc : (f (s.live? now k)).2 with
      | keep =>
        rw [hc] at hleft
        exact hleft
      | store x => exact absurd hc (hf _ x)
      | drop =>
        rw [hc] at hleft
        cases hleft
    · rwa [live?_visit_of_ne hk] at hvisit

theorem dated_changeItems (f : List Bytes → List Bytes) : Dated now k none s (s.changeItems now j f).2 := by
  refine dated_visit fun {x e} he => ?_
  cases hx : itemsOf x with
  | ok items =>
    rw [hx] at he
    obtain ⟨-, rfl⟩ := storeItems_eq_store he
    rfl
  | error fault =>
    rw [hx] at he
    cases he

theorem dated_persist : Dated now k (if j = k then some none else none) s (s.persist now j).2 := by
  refine dated_visit_given fun {x e} he => ?_
  rcases x with _ | ⟨v, _ | d⟩
  · cases he
  · obtain rfl := Option.some.inj he
    rfl
  · obtain rfl := Option.some.inj he
    rfl

theorem ending_of_pos {seconds : Int} (h : 0 < seconds) :
    ending now seconds = (Binary64.ofInt? seconds).map now.add := if_pos h

theorem ending_of_nonpos {seconds : Int} (h : seconds ≤ 0) : ending now seconds = none := if_neg (Int.not_lt.mpr h)

theorem Dated.of_none {d : Option Instant} (h : Dated now k none s t) (hd : d = none) :
    Dated now k (if j = k then d.map some else none) s t := by
  rw [hd, Option.map_none, ite_self]
  exact h

theorem dated_expire (seconds : Int) :
    Dated now k (if j = k then (ending now seconds).map some else none) s (s.expire now j seconds).2 := by
  unfold expire
  by_cases hpos : seconds ≤ 0
  · simp only [if_pos hpos]
    refine Dated.of_none (dated_visit fun {x e} he => ?_) (ending_of_nonpos hpos)
    cases x <;> cases he
  · rw [ending_of_pos (Int.not_le.mp hpos)]
    simp only [if_neg hpos]
    rcases deadlineAfter_cases now seconds with ⟨t, ht, hd⟩ | ⟨hnone, hd⟩
    · rw [ht, hd]
      refine dated_visit_given fun {x e} he => ?_
      cases x with
      | none => cases he
      | some x =>
        obtain rfl := Option.some.inj he
        rfl
    · rw [hnone, hd]
      refine Dated.of_none (dated_visit fun {x e} he => ?_) rfl
      cases x <;> cases he

theorem dated_setWithLifetime (hnow : now ≠ .nan) (data : Bytes) (seconds : Int) :
    Dated now k (if j = k then (ending now seconds).map some else none) s
      (s.setWithLifetime now j data seconds).2 := by
  unfold setWithLifetime
  by_cases hneg : seconds < 0
  · rw [if_pos hneg]
    exact Dated.of_none (dated_refl now k s) (ending_of_nonpos (Int.le_of_lt hneg))
  rw [if_neg hneg]
  by_cases hpos : 0 < seconds
  · rw [ending_of_pos hpos]
    rcases deadlineAfter_cases now seconds with ⟨t, ht, hd⟩ | ⟨hnone, hd⟩
    · rw [ht, hd]
      exact dated_put ⟨.string data, some (now.add t)⟩
    · rw [hnone, hd]
      exact Dated.of_none (dated_refl now k s) rfl
  · -- A lifetime of no seconds has ended when it begins.
    obtain rfl : seconds = 0 := by omega
    rw [deadlineAfter_of_ofInt? Binary64.ofInt?_zero]
    exact Dated.of_none (dated_put_expired (Binary64.add_zero_le hnow)) (ending_of_nonpos (Int.le_refl 0))

end RespStore.Keyspace
