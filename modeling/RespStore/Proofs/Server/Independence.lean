import RespStore.Proofs.Command.Failure
import RespStore.Proofs.Command.Locality
import RespStore.Proofs.Server.Exchange

/-! Clients that work on keys of their own do not notice each other. What a request replies, and what it leaves of
any entry, depends on the entries it names alone; so the entries that one client works on go the same way whatever
the others do in between. -/

namespace RespStore

open Keyspace

section Execute

variable {now : Instant} {s t : Keyspace} {r : Request}

theorem execute_congr (now : Instant) (hr : r.isGlobal = false)
    (h : ∀ b ∈ r.keyArguments, s.find? (Dispatch.keyOf b) = t.find? (Dispatch.keyOf b)) :
    (execute now s r).1 = (execute now t r).1 ∧
      ∀ k, s.find? k = t.find? k → (execute now s r).2.find? k = (execute now t r).2.find? k := by
  have htouches : Dispatch.Touches now (r.keyArguments.map Dispatch.keyOf) fun s => Dispatch.perform now s r :=
    Dispatch.perform_touches hr
  have hkeys : ∀ k ∈ r.keyArguments.map Dispatch.keyOf, s.find? k = t.find? k := List.forall_mem_map.mpr h
  have hreply : (Dispatch.perform now s r).1 = (Dispatch.perform now t r).1 :=
    htouches.reply_congr fun k hk => live?_congr (hkeys k hk)
  rw [execute_eq, execute_eq, hreply]
  exact ⟨rfl, fun k hk => htouches.find?_congr hkeys hk⟩

theorem find?_execute (hr : r.isGlobal = false) {k : Text} (hk : ∀ b ∈ r.keyArguments, Dispatch.keyOf b ≠ k) :
    (execute now s r).2.find? k = s.find? k := by
  rw [execute_eq]
  refine (Dispatch.perform_touches hr).find?_of_not_mem (fun hmem => ?_) s
  obtain ⟨b, hb, heq⟩ := List.mem_map.mp hmem
  exact hk b hb heq

end Execute

structure Issued where
  client : Nat
  request : Request

namespace Issued

def action (now : Instant) (i : Issued) : Action := .execute i.client now i.request

def requestsOf (id : Nat) (is : List Issued) : List Request := (is.filter (·.client = id)).map (·.request)

def Interleaves (lists : Nat → List Request) (is : List Issued) : Prop := ∀ id, requestsOf id is = lists id

structure Apart (lists : Nat → List Request) : Prop where
  isGlobal : ∀ id, ∀ r ∈ lists id, r.isGlobal = false
  keys : ∀ i j, i ≠ j → ∀ r ∈ lists i, ∀ q ∈ lists j, ∀ b ∈ r.keyArguments, b ∉ q.keyArguments

def Free (lists : Nat → List Request) (id : Nat) (k : Text) : Prop :=
  ∀ j, j ≠ id → ∀ r ∈ lists j, ∀ b ∈ r.keyArguments, Dispatch.keyOf b ≠ k

variable {lists : Nat → List Request} {is : List Issued} {id : Nat} {s t : Keyspace}

theorem Interleaves.mem (h : Interleaves lists is) {i : Issued} (hi : i ∈ is) : i.request ∈ lists i.client := by
  rw [← h]
  exact List.mem_map.mpr ⟨i, List.mem_filter.mpr ⟨hi, decide_eq_true rfl⟩, rfl⟩

theorem Apart.free (h : Apart lists) {r : Request} (hr : r ∈ lists id) {b : Bytes} (hb : b ∈ r.keyArguments) :
    Free lists id (Dispatch.keyOf b) := by
  intro j hj q hq c hc heq
  obtain rfl : c = b := Text.ofBytes_injective heq
  exact h.keys j id hj q hq r hr c hc hb

theorem Apart.exists_free (h : Apart lists) (k : Text) : ∃ id, Free lists id k := by
  by_cases hk : ∃ id, ∃ r ∈ lists id, ∃ b ∈ r.keyArguments, Dispatch.keyOf b = k
  · obtain ⟨id, r, hr, b, hb, rfl⟩ := hk
    exact ⟨id, h.free hr hb⟩
  · exact ⟨0, fun j _ r hr b hb heq => hk ⟨j, r, hr, b, hb, heq⟩⟩

theorem play_eq_alone (now : Instant) (id : Nat) (h : Apart lists) (hmem : ∀ i ∈ is, i.request ∈ lists i.client)
    (hst : ∀ k, Free lists id k → s.find? k = t.find? k) :
    (s.play (is.map (·.action now))).1.filter (·.id = id) =
        (t.play ((requestsOf id is).map (.execute id now))).1 ∧
      ∀ k, Free lists id k →
        (s.play (is.map (·.action now))).2.find? k =
          (t.play ((requestsOf id is).map (.execute id now))).2.find? k := by
  -- A request of the client's own is executed in both runs; one of another's changes no key left to the client.
  induction is generalizing s t with
  | nil => exact ⟨rfl, hst⟩
  | cons i is ih =>
    have hi : i.request ∈ lists i.client := hmem i List.mem_cons_self
    have hrest : ∀ i ∈ is, i.request ∈ lists i.client := fun j hj => hmem j (List.mem_cons_of_mem i hj)
    have hglobal : i.request.isGlobal = false := h.isGlobal i.client i.request hi
    by_cases hid : i.client = id
    · obtain ⟨hreply, hfind⟩ := execute_congr now hglobal fun b hb => hst _ (hid ▸ h.free hi hb)
      obtain ⟨hanswers, hkeys⟩ := ih hrest fun k hk => hfind k (hst k hk)
      have hown : requestsOf id (i :: is) = i.request :: requestsOf id is := by simp [requestsOf, hid]
      rw [hown]
      refine ⟨?_, hkeys⟩
      simp only [List.map_cons, action, play, hid, hreply, List.filter_cons, decide_true, if_true]
      exact congrArg _ hanswers
    · have hfind : ∀ k, Free lists id k → (execute now s i.request).2.find? k = s.find? k :=
        fun k hk => find?_execute hglobal (hk i.client hid i.request hi)
      obtain ⟨hanswers, hkeys⟩ := ih hrest fun k hk => (hfind k hk).trans (hst k hk)
      have hown : requestsOf id (i :: is) = requestsOf id is := by simp [requestsOf, hid]
      rw [hown]
      refine ⟨?_, hkeys⟩
      simp only [List.map_cons, action, play, List.filter_cons, hid, decide_false, Bool.false_eq_true, if_false]
      exact hanswers

/-- However the requests of clients with keys of their own are interleaved, each client is answered as if it were
alone, and the same entry is left at each key. -/
theorem answered_as_alone (now : Instant) (s : Keyspace) (h : Apart lists) (his : Interleaves lists is) :
    (∀ id, (s.play (is.map (·.action now))).1.filter (·.id = id) =
        (s.play ((lists id).map (.execute id now))).1) ∧
      ∀ js, Interleaves lists js → ∀ k,
        (s.play (is.map (·.action now))).2.find? k = (s.play (js.map (·.action now))).2.find? k := by
  refine ⟨fun id => ?_, fun js hjs k => ?_⟩
  · rw [← his id]
    exact (play_eq_alone now id h (fun _ => his.mem) fun _ _ => rfl).1
  · obtain ⟨id, hk⟩ := h.exists_free k
    have hi := (play_eq_alone now id h (fun _ => his.mem) fun j _ => Eq.refl (s.find? j)).2 k hk
    have hj := (play_eq_alone now id h (fun _ => hjs.mem) fun j _ => Eq.refl (s.find? j)).2 k hk
    rw [hi, hj, his id, hjs id]

def ofTwo (rs qs : List Request) : Nat → List Request
  | 0 => rs
  | 1 => qs
  | _ => []

theorem apart_ofTwo {rs qs : List Request} (hrs : ∀ r ∈ rs, r.isGlobal = false)
    (hqs : ∀ q ∈ qs, q.isGlobal = false)
    (h : ∀ r ∈ rs, ∀ q ∈ qs, ∀ b ∈ r.keyArguments, b ∉ q.keyArguments) : Apart (ofTwo rs qs) := by
  have hmem : ∀ {i : Nat} {r : Request}, r ∈ ofTwo rs qs i → i = 0 ∧ r ∈ rs ∨ i = 1 ∧ r ∈ qs := by
    intro i r hr
    rcases i with _ | _ | i
    · exact .inl ⟨rfl, hr⟩
    · exact .inr ⟨rfl, hr⟩
    · cases hr
  constructor
  · intro id r hr
    rcases hmem hr with ⟨-, hr⟩ | ⟨-, hr⟩
    · exact hrs r hr
    · exact hqs r hr
  · intro i j hij r hr q hq b hb hb'
    rcases hmem hr with ⟨rfl, hr⟩ | ⟨rfl, hr⟩
    · rcases hmem hq with ⟨rfl, -⟩ | ⟨-, hq⟩
      · exact hij rfl
      · exact h r hr q hq b hb hb'
    · rcases hmem hq with ⟨-, hq⟩ | ⟨rfl, -⟩
      · exact h q hq r hr b hb' hb
      · exact hij rfl

theorem interleaves_ofTwo (h : ∀ i ∈ is, i.client ≤ 1) :
    Interleaves (ofTwo (requestsOf 0 is) (requestsOf 1 is)) is := by
  intro id
  rcases id with _ | _ | n
  · rfl
  · rfl
  · have hnone : is.filter (·.client = n + 2) = [] := by
      refine List.filter_eq_nil_iff.mpr fun i hi heq => ?_
      have hone : i.client ≤ 1 := h i hi
      rw [of_decide_eq_true heq] at hone
      omega
    rw [requestsOf, hnone]
    rfl

def crossing : List Issued :=
  [⟨1, ⟨.ofString "HSET", [[104], [102], [118]]⟩⟩, ⟨0, ⟨.ofString "DEL", [[115], [120]]⟩⟩,
    ⟨1, ⟨.ofString "HDEL", [[104], [102]]⟩⟩, ⟨0, ⟨.ofString "RPUSH", [[115], [118]]⟩⟩,
    ⟨1, ⟨.ofString "EXISTS", [[104], [108]]⟩⟩]

def oneByOne : List Issued := crossing.filter (·.client = 0) ++ crossing.filter (·.client = 1)

theorem answered_as_alone_crossing :
    (∀ id, (partlyExpired.play (crossing.map (·.action .zero))).1.filter (·.id = id) =
        (partlyExpired.play
          ((ofTwo (requestsOf 0 crossing) (requestsOf 1 crossing) id).map (.execute id .zero))).1) ∧
      ∀ k, (partlyExpired.play (crossing.map (·.action .zero))).2.find? k =
        (partlyExpired.play (oneByOne.map (·.action .zero))).2.find? k := by
  have happart : Apart (ofTwo (requestsOf 0 crossing) (requestsOf 1 crossing)) :=
    apart_ofTwo (by decide +kernel) (by decide +kernel) (by decide +kernel)
  have hother : Interleaves (ofTwo (requestsOf 0 crossing) (requestsOf 1 crossing)) oneByOne :=
    interleaves_ofTwo (by decide +kernel)
  obtain ⟨hanswers, hkeys⟩ :=
    answered_as_alone .zero partlyExpired happart (interleaves_ofTwo (by decide +kernel))
  exact ⟨hanswers, hkeys oneByOne hother⟩

end Issued

end RespStore
