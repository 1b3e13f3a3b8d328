import RespStore.Proofs.Command.Deadlines
import RespStore.Proofs.Command.Views

/-! Keys that are left alone. Requests for other keys, requests that only ask, sweeps and the clock let a key hold what
it holds until its deadline comes. So where all other requests are of one kind, what the key holds in the end is what
those requests made of it, as if nothing else had happened in between. -/

namespace RespStore

open Keyspace Dispatch

theorem Dispatch.perform_eq_run {now : Instant} {s : Keyspace} {r : Request} {c : Command} (hr : r.command? = some c)
    (ha : c.admits r.args.length = true) : perform now s r = run now s r.name c r.args := by
  have hname : Command.ofText? r.name = some c := hr
  rw [perform, hname]
  exact if_pos ha

namespace Keyspace

def lasting : Value → Option Entry
  | .hash [] | .list [] => none
  | v => some ⟨v, none⟩

theorem filter_lasting (v : Value) (now : Instant) : (lasting v).filter (!·.isExpired now) = lasting v := by
  unfold lasting
  split <;> rfl

theorem bind_deadline_lasting (v : Value) : (lasting v).bind (·.deadline) = none := by
  unfold lasting
  split <;> rfl

theorem fieldsOf_lasting (fs : Fields) : fieldsOf (lasting (.hash fs)) = .ok fs := by cases fs <;> rfl

theorem itemsOf_lasting (items : List Bytes) : itemsOf (lasting (.list items)) = .ok items := by cases items <;> rfl

end Keyspace

namespace Request

/-- Whether a request names other keys only, or only asks. -/
def Spares (b : Bytes) (r : Request) : Prop := r.isFlush = false ∧ b ∉ r.keyArguments ∨ r.isReading = true

theorem Spares.changesPart {b : Bytes} {r : Request} (hr : r.Spares b) {c : Command} (hc : r.command? = some c)
    (hb : r.args.head? = some b) : c.changesPart = false := by
  unfold Spares isReading keyArguments at hr
  rw [hc] at hr
  obtain ⟨args, hargs⟩ : ∃ args, r.args = b :: args := List.head?_eq_some_iff.mp hb
  rw [hargs] at hr
  cases c with
  | hset | hmset | hdel | lpush | rpush =>
    rcases hr with ⟨-, hspared⟩ | hreading
    · exact absurd List.mem_cons_self hspared
    · cases hreading
  | _ => rfl

end Request

namespace Moment

def Event.Spares (b : Bytes) : Event → Prop
  | .request r => r.Spares b
  | .clock _ | .sweep => True

variable {m : Moment} {b : Bytes} {k : Text} {r : Request} {e : Event}

theorem step_keyspace (m : Moment) (r : Request) :
    (m.step (.request r)).keyspace = (perform m.now m.keyspace r).2 := by rw [step, dispatch_eq]

theorem liveAt_request (m : Moment) (r : Request) (k : Text) :
    (m.step (.request r)).liveAt k = (perform m.now m.keyspace r).2.live? m.now k := by rw [liveAt, step_keyspace]; rfl

theorem liveAt_request_of_spares (hr : r.Spares b) : (m.step (.request r)).liveAt (keyOf b) = m.liveAt (keyOf b) := by
  rw [liveAt_request]
  rcases hr with ⟨hflush, hb⟩ | hreading
  · have hk : keyOf b ∉ r.keyArguments.map keyOf := by
      intro hmem
      obtain ⟨c, hc, hkey⟩ := List.mem_map.mp hmem
      exact hb (Text.ofBytes_injective hkey ▸ hc)
    exact live?_congr (find?_perform_of_not_named hflush hk m.keyspace)
  · have hlooks : Looks m.now (r.keyArguments.map keyOf) fun s => perform m.now s r := perform_looks hreading
    exact (hlooks.trimmed m.keyspace).live? (keyOf b)

theorem liveAt_sweep (hm : m.keyspace.keys.Nodup) : (m.step .sweep).liveAt k = m.liveAt k := live?_liveEntries hm

theorem liveAt_of_spares (hm : m.keyspace.keys.Nodup) (hf : Forward m.now [e]) (he : e.Spares b) :
    (m.step e).liveAt (keyOf b) = (m.liveAt (keyOf b)).filter (!·.isExpired (m.step e).now) := by
  have hsame : (m.liveAt (keyOf b)).filter (!·.isExpired m.now) = m.liveAt (keyOf b) := by
    rw [liveAt, live?, Option.filter_filter]
    simp only [Bool.and_self]
  cases e with
  | request r => exact (liveAt_request_of_spares he).trans hsame.symm
  | clock later => exact liveAt_clock hf.1
  | sweep => exact (liveAt_sweep hm).trans hsame.symm

theorem nodup_step (hm : m.keyspace.keys.Nodup) (hf : Forward m.now [e]) : (m.step e).keyspace.keys.Nodup := by
  have hafter : (m.after [e]).keyspace.keys.Nodup := nodup_after hm hf
  exact hafter

/-- A key is not there for any request: each comes to what it would come to if nothing at all were stored there. -/
structure Gone (m : Moment) (b : Bytes) : Prop extends m.Absent b where
  ttl : m.reply .ttl [b] = .ok (.integer (-2))
  unseen : ∀ r : Request, SameReply r.command? (dispatch m.now m.keyspace r).1
    (dispatch m.now (m.keyspace.erase (keyOf b)) r).1

theorem sameLive_erase {now : Instant} {s : Keyspace} (hs : s.keys.Nodup) (h : s.live? now k = none) :
    SameLive now s (s.erase k) := by
  refine ⟨hs, Bindings.nodup_erase hs, fun j => ?_⟩
  by_cases hj : j = k
  · subst hj
    rw [h, live?, Bindings.find?_erase_self]
    rfl
  · rw [live?, live?, Bindings.find?_erase_of_ne hj]

theorem ttl_eq (m : Moment) (b : Bytes) :
    m.reply .ttl [b] = told ((m.keyspace.timeToLive m.now (keyOf b)).1.map .integer) := reply_eq rfl

theorem gone_of_liveAt (hm : m.keyspace.keys.Nodup) (h : m.liveAt (keyOf b) = none) : m.Gone b where
  toAbsent := absent_of_live? h
  ttl := by
    have hnone : (m.keyspace.timeToLive m.now (keyOf b)).1 = .ok (-2) := timeToLive_eq_absent_iff.mpr h
    rw [ttl_eq, hnone]
    rfl
  unseen r := (dispatch_sameLive (sameLive_erase hm h) r).1

/-- How requests of one kind make the value that a key holds without a deadline, from one state to the next. -/
structure Authored {σ : Type} (b : Bytes) (Writes : Request → Prop) (held : σ → Value)
    (next : σ → Request → σ) : Prop where
  spared : ∀ x r, r.Spares b → next x r = x
  written : ∀ (m : Moment) x r, Writes r → m.liveAt (keyOf b) = lasting (held x) →
    (m.step (.request r)).liveAt (keyOf b) = lasting (held (next x r))

def requests (es : List Event) : List Request :=
  es.filterMap fun
    | .request r => some r
    | _ => none

def OnlyWrites (b : Bytes) (Writes : Request → Prop) (es : List Event) : Prop :=
  ∀ e ∈ es, e.Spares b ∨ ∃ r, e = .request r ∧ Writes r

theorem Authored.liveAt_step {σ : Type} {Writes : Request → Prop} {held : σ → Value} {next : σ → Request → σ}
    (h : Authored b Writes held next) (hm : m.keyspace.keys.Nodup) (hf : Forward m.now [e])
    (he : e.Spares b ∨ ∃ r, e = .request r ∧ Writes r) {x : σ}
    (hx : m.liveAt (keyOf b) = lasting (held x)) :
    (m.step e).liveAt (keyOf b) = lasting (held ((requests [e]).foldl next x)) := by
  rcases he with hspares | ⟨r, rfl, hwrites⟩
  · have hnext : (requests [e]).foldl next x = x := by
      cases e with
      | request r => exact h.spared x r hspares
      | clock | sweep => rfl
    rw [liveAt_of_spares hm hf hspares, hx, filter_lasting, hnext]
  · exact h.written m x r hwrites hx

theorem Authored.liveAt_after {σ : Type} {Writes : Request → Prop} {held : σ → Value}
    {next : σ → Request → σ} (h : Authored b Writes held next) (hm : m.keyspace.keys.Nodup) {es : List Event}
    (hes : Forward m.now es) (honly : OnlyWrites b Writes es) {x : σ}
    (hx : m.liveAt (keyOf b) = lasting (held x)) :
    (m.after es).liveAt (keyOf b) = lasting (held ((requests es).foldl next x)) := by
  induction es generalizing m x with
  | nil => exact hx
  | cons e es ih =>
    obtain ⟨hf, hrest⟩ : Forward m.now [e] ∧ Forward (m.step e).now es := forward_append rfl hes
    have hstep := h.liveAt_step hm hf (honly e List.mem_cons_self) hx
    have hafter := ih (nodup_step hm hf) hrest (fun e' he' => honly e' (List.mem_cons_of_mem e he')) hstep
    have hrequests : requests (e :: es) = requests [e] ++ requests es := List.filterMap_append (l := [e])
    rw [hrequests, List.foldl_append]
    exact hafter

end Moment

end RespStore
