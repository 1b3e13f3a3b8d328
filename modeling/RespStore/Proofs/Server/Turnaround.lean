import RespStore.Proofs.Server.History
import RespStore.Proofs.Wire.Patience

/-! One request on a connection. Whatever reads bring it, and whatever happens on other connections meanwhile, it is
executed once, its reply is all that is written, and the connection is then as fresh as before. -/

namespace RespStore

open Wire (Decoder Decoding)

namespace Server

def Event.offered (id : Nat) : Event → Bytes
  | receive _ j data => if j = id then data else []
  | _ => []

def offered (id : Nat) (es : List Event) : Bytes := es.flatMap (·.offered id)

variable {s : Server} {id : Nat} {e : Event} {es : List Event} {d : Decoder} {parts : List Part}

theorem input_of_serving (hd : s.connections.find? id = some d) (e : Event) : s.input id e = e.offered id := by
  have hserving : s.isServing id = true := by rw [isServing, hd]; rfl
  cases e with
  | receive now j data => simp [input, Event.offered, hserving]
  | _ => rfl

theorem find?_after_of_unoffered (hd : s.connections.find? id = some d) (hid : id < s.opened)
    (ho : offered id es = []) (hends : ∀ e ∈ es, e.ends id = false) :
    (s.after es).connections.find? id = some d := by
  induction es generalizing s with
  | nil => exact hd
  | cons e es ih =>
    obtain ⟨he, hes⟩ := List.append_eq_nil_iff.mp ho
    have hrest : ∀ e' ∈ es, e'.ends id = false := fun e' he' => hends e' (List.mem_cons_of_mem e he')
    cases turn id s e with
    | aside silent ends opened find => exact ih (find.trans hd) (opened.mpr hid) hes hrest
    | opened silent ends new => omega
    | closed silent ends => exact absurd (ends.symm.trans (hends e List.mem_cons_self)) (by decide)
    | read now d' data receive serving data_ne =>
      subst receive
      have hdata : (if id = id then data else []) = [] := he
      rw [if_pos rfl] at hdata
      exact absurd hdata data_ne

theorem sent_of_unoffered (ho : offered id es = []) : s.sent id es = [] := by
  induction es generalizing s with
  | nil => rfl
  | cons e es ih =>
    obtain ⟨he, hes⟩ := List.append_eq_nil_iff.mp ho
    have hinput : s.input id e = [] := by
      cases e with
      | receive now j data =>
        have hdata : (if j = id then data else []) = [] := he
        show (if j = id ∧ s.isServing id then data else []) = []
        by_cases hj : j = id
        · rw [if_pos hj] at hdata
          rw [hdata, ite_self]
        · exact if_neg fun h => hj h.1
      | _ => rfl
    rw [sent, hinput, ih hes]
    rfl

def Broken (p : Bytes) (d : Decoder) : Prop := (({} : Decoder).feed p).drain = ⟨[], none, d⟩

theorem broken_nil : Broken [] {} := by
  rw [Broken, Decoder.feed_nil]
  exact Decoder.drain_of_none (Decoder.next_fresh {})

theorem drain_whole (h : Request.Encodable {} parts) :
    (({} : Decoder).feed (Request.encodeParts parts)).drain =
      ⟨[.ofParts (parts.map Part.toBytes)], none, {}⟩ := by
  have hnext := Decoder.next_encodeParts h []
  rw [List.append_nil, Decoder.feed_nil] at hnext
  rw [Decoder.drain_of_found hnext, Decoder.drain_of_none (Decoder.next_fresh {})]
  rfl

theorem Broken.feed {p data : Bytes} (hp : Broken p d) :
    (d.feed data).drain = (({} : Decoder).feed (p ++ data)).drain := by
  have hfault : (({} : Decoder).feed p).drain.fault = none := by rw [hp]
  have hdrain := Decoder.drain_feed_of_none hfault data
  rw [Decoder.feed_feed, hp] at hdrain
  exact hdrain.symm

theorem broken_of_prefix (h : Request.Encodable {} parts) {p : Bytes} (hp : p <+: Request.encodeParts parts)
    (hne : p ≠ Request.encodeParts parts) : ∃ d, Broken p d := by
  have hlimit : Numeral.maxDigits + 1 < ({} : Wire.Limits).line := by decide
  have hnext := Wire.next_of_broken hlimit h hp hne
  rcases hx : (({} : Decoder).feed p).next with ⟨x, d⟩
  rw [hx] at hnext
  obtain rfl : x = .ok none := hnext
  exact ⟨d, Decoder.drain_of_none hx⟩

theorem read_whole (h : Request.Encodable {} parts) {p : Bytes} (hd : s.connections.find? id = some d)
    (hid : id < s.opened) (hp : Broken p d) (hwhole : p ++ offered id es = Request.encodeParts parts)
    (hends : ∀ e ∈ es, e.ends id = false) (hne : offered id es ≠ []) :
    s.sent id es = offered id es ∧
      ((Request.ofParts (parts.map Part.toBytes)).isQuit = false →
        (s.after es).connections.find? id = some {}) := by
  induction es generalizing s d p with
  | nil => exact absurd rfl hne
  | cons e es ih =>
    have hrest : ∀ e' ∈ es, e'.ends id = false := fun e' he' => hends e' (List.mem_cons_of_mem e he')
    have hoffered : offered id (e :: es) = e.offered id ++ offered id es := List.flatMap_cons
    have hsent : s.sent id (e :: es) = e.offered id ++ (s.step e).sent id es := by
      rw [sent, input_of_serving hd]
    cases turn id s e with
    | aside silent ends opened find =>
      have hnothing : e.offered id = [] := by rw [← input_of_serving hd, silent.input]
      rw [hsent, hoffered, hnothing, List.nil_append]
      rw [hoffered, hnothing, List.nil_append] at hwhole hne
      exact ih (find.trans hd) (opened.mpr hid) hp hwhole hrest hne
    | opened silent ends new => omega
    | closed silent ends => exact absurd (ends.symm.trans (hends e List.mem_cons_self)) (by decide)
    | read now d' data receive serving data_ne =>
      obtain rfl : d' = d := Option.some.inj (serving.symm.trans hd)
      subst receive
      have hdata : (Event.receive now id data).offered id = data := if_pos rfl
      rw [hsent, hoffered, hdata]
      rw [hoffered, hdata, ← List.append_assoc] at hwhole
      have hheard := heard_of_serving now hd data_ne
      have hid' : id < (s.step (.receive now id data)).opened := by rw [hheard.opened]; exact hid
      by_cases hlast : offered id es = []
      · rw [sent_of_unoffered hlast, hlast]
        refine ⟨rfl, fun hquit => ?_⟩
        rw [hlast, List.append_nil] at hwhole
        have hdrain : (d'.feed data).drain = ⟨[.ofParts (parts.map Part.toBytes)], none, {}⟩ := by
          rw [hp.feed, hwhole, drain_whole h]
        have hwaiting : (d'.feed data).drain.ending = .waiting := by
          rw [hdrain, Decoding.ending_eq_waiting]
          exact ⟨by simpa [Decoding.hasQuit] using hquit, rfl⟩
        have hfind := hheard.find
        rw [if_pos hwaiting, hdrain] at hfind
        have hlater := find?_after_of_unoffered hfind hid' hlast hrest
        exact hlater
      · have hprefix : p ++ data <+: Request.encodeParts parts := ⟨_, hwhole⟩
        have hproper : p ++ data ≠ Request.encodeParts parts := by
          intro heq
          rw [heq] at hwhole
          exact hlast (List.append_right_eq_self.mp hwhole)
        obtain ⟨d'', hd''⟩ := broken_of_prefix h hprefix hproper
        have hdrain : (d'.feed data).drain = ⟨[], none, d''⟩ := hp.feed.trans hd''
        have hfind := hheard.find
        rw [hdrain] at hfind
        have hnext := ih hfind hid' hd'' hwhole hrest hlast
        exact ⟨congrArg (data ++ ·) hnext.1, hnext.2⟩

theorem exists_of_answers {k : Keyspace} {as : List Action} {a : Answered}
    (h : (k.play as).1.filter (·.id = id) = [a]) :
    ∃ before now after, as = before ++ .execute id now a.request :: after ∧
      a.reply = (execute now (k.play before).2 a.request).1 := by
  induction as generalizing k with
  | nil => cases h
  | cons b as ih =>
    cases b with
    | sweep now =>
      obtain ⟨before, now', after, rfl, hreply⟩ := ih h
      exact ⟨.sweep now :: before, now', after, rfl, hreply⟩
    | execute j now r =>
      rw [Keyspace.play] at h
      dsimp only at h
      rw [List.filter_cons] at h
      split at h
      · rename_i hj
        have hid : j = id := by simpa using hj
        obtain ⟨rfl, -⟩ := List.cons.inj h
        exact ⟨[], now, as, by rw [hid]; rfl, rfl⟩
      · obtain ⟨before, now', after, rfl, hreply⟩ := ih h
        exact ⟨.execute j now r :: before, now', after, rfl, hreply⟩

structure Turnaround (id : Nat) (s : Server) (es : List Event) (r : Request) (before : List Action)
    (now : Instant) : Prop where
  executed : ∃ after, s.history es = before ++ .execute id now r :: after
  written : s.written id es = (execute now (s.keyspace.play before).2 r).1.toBytes
  fresh : r.isQuit = false → (s.after es).connections.find? id = some {}

theorem turnaround (h : Request.Encodable {} parts) (hd : s.connections.find? id = some {}) (hid : id < s.opened)
    (ho : offered id es = Request.encodeParts parts) (hends : ∀ e ∈ es, e.ends id = false) :
    ∃ before now, s.Turnaround id es (.ofParts (parts.map Part.toBytes)) before now := by
  have hne : offered id es ≠ [] := by
    rw [ho, Request.encodeParts, Request.encode, Reply.toBytes]
    exact List.cons_ne_nil _ _
  obtain ⟨hsent, hfresh⟩ := read_whole h hd hid broken_nil ho hends hne
  have hserves := serves_of_serving hd hid (Decoder.next_fresh {}) es
  rw [hsent, ho, drain_whole h] at hserves
  have hrequests : (s.answers id es).map (·.request) = [.ofParts (parts.map Part.toBytes)] := by
    rw [hserves.requests, upToQuit]
    split <;> rfl
  obtain ⟨a, ha, hrequest⟩ := List.map_eq_singleton_iff.mp hrequests
  obtain ⟨before, now, after, hhistory, hreply⟩ := exists_of_answers ha
  refine ⟨before, now, ⟨after, hrequest ▸ hhistory⟩, ?_, hfresh⟩
  have hnotice : (Exchange.notice (Decoding.mk [.ofParts (parts.map Part.toBytes)] none {}).ending).toList = [] := by
    unfold Decoding.ending
    split <;> rfl
  rw [hserves.written, hnotice, ha, ← hrequest, ← hreply]
  exact List.append_nil _

end Server

end RespStore
