import RespStore.Proofs.Keyspace.Deadline
import RespStore.Proofs.Keyspace.Every

/-! Operations without faults. As long as whatever is left of each lifetime can be told, an operation that a
request can ask for fails only by refusing. -/

namespace RespStore

open Keyspace

def Entry.Tellable (now : Instant) (e : Entry) : Prop := ∀ d ∈ e.deadline, Keyspace.Tellable now d

namespace Keyspace

def Faultless {α : Type} (x : Except Failure α × Keyspace) : Prop := ∀ f, x.1 ≠ .error (.fault f)

variable {α : Type} {now later : Instant} {k : Text} {s t : Keyspace} {e : Entry}

theorem tellable_of_no_deadline {v : Value} : Entry.Tellable now ⟨v, none⟩ := by
  intro d hd
  cases hd

theorem upheld_tellable (hnow : now ≠ .nan) : Upheld now (Entry.Tellable now) where
  string _ := tellable_of_no_deadline
  lasting _ h0 hn hd := by
    obtain ⟨d, hd', ht⟩ := exists_deadlineAfter hnow h0 hn
    obtain rfl := Except.ok.inj (hd.symm.trans hd')
    intro c hc
    obtain rfl := Option.some.inj hc
    exact ht
  persistent _ := tellable_of_no_deadline
  fields _ h := h
  newFields _ := tellable_of_no_deadline
  fieldsLeft _ h _ := h
  items h _ := h
  newItems _ := tellable_of_no_deadline

theorem Every.tellable_later (hs : s.Every (Entry.Tellable now)) (hl : now.le later = true) :
    s.Every (Entry.Tellable later) :=
  hs.imp fun _ he d hd => (he d hd).at_later hl

theorem Guarded.faultless {x : Except Failure α × Keyspace} (h : s.Guarded x) : Faultless x := by
  intro f hx
  cases (h _ hx).1

theorem faultless_setWithLifetime (hnow : now ≠ .nan) (data : Bytes) {seconds : Int} (h0 : 0 ≤ seconds)
    (hn : seconds ≤ Argument.greatest) : Faultless (s.setWithLifetime now k data seconds) := by
  obtain ⟨d, hd, -⟩ := exists_deadlineAfter hnow h0 hn
  rw [setWithLifetime, if_neg (by omega), hd]
  intro f h
  cases h

theorem faultless_expire (hnow : now ≠ .nan) {seconds : Int} (hn : seconds ≤ Argument.greatest) :
    Faultless (s.expire now k seconds) := by
  intro f h
  obtain ⟨x, -, hx⟩ := exists_live_of_error ⟨false, rfl⟩ h
  dsimp only at hx
  split at hx
  · cases hx
  · rename_i hpos
    obtain ⟨d, hd, -⟩ := exists_deadlineAfter hnow (by omega) hn
    rw [hd] at hx
    cases hx

theorem faultless_timeToLive (hs : s.Every (Entry.Tellable now)) (hnow : now ≠ .nan) :
    Faultless (s.timeToLive now k) := by
  intro f h
  obtain ⟨x, hlive, hx⟩ := exists_live_of_error ⟨-2, rfl⟩ h
  have htell : x.Tellable now := hs.live? hlive
  obtain ⟨v, _ | d⟩ := x
  · cases hx
  · have hexpired : (!d.le now) = true := (Option.filter_eq_some_iff.mp hlive).2
    rcases htell d rfl now (Binary64.le_refl hnow) with hd | ⟨n, hn⟩
    · rw [hd] at hexpired
      cases hexpired
    · cases hn.symm.trans hx

theorem Operation.faultless_call (hs : s.Every (Entry.Tellable now)) (hnow : now ≠ .nan) {o : Operation α}
    (ho : o.Admissible) : Faultless (o.call now s) := by
  cases htimed : o.isTimed with
  | false => exact (guarded_call htimed s).faultless
  | true =>
    cases o with
    | expire k n => exact faultless_expire hnow ho
    | timeToLive k => exact faultless_timeToLive hs hnow
    | setWithLifetime k data n => exact faultless_setWithLifetime hnow data ho.1 ho.2
    | _ => cases htimed

end Keyspace

end RespStore
