import RespStore.Proofs.Keyspace.Lookup
import RespStore.Proofs.Server.History

/-! What a server counts. The connections and the requests are counted apart from where connections end and replies
are written, and there are several ways for a connection to end; after any events the counts are those of what
happened. -/

namespace RespStore

inductive Message where
  | reply (r : Reply)
  | notice (f : Wire.ProtocolFault)

namespace Message

def toReply : Message → Reply
  | reply r => r
  | notice f => .error f.error.line

def isNotice : Message → Bool
  | reply _ => false
  | notice _ => true

end Message

namespace Exchange

def messages (x : Exchange) : List Message :=
  x.replies.map .reply ++
    match x.ending with
    | .malformed f => [.notice f]
    | _ => []

theorem toBytes_eq_messages (x : Exchange) : x.toBytes = Reply.listToBytes (x.messages.map Message.toReply) := by
  have hreplies : (x.replies.map Message.reply).map Message.toReply = x.replies := by
    rw [List.map_map]
    exact List.map_id _
  rw [toBytes, messages, List.map_append, hreplies]
  cases x.ending <;> rfl

theorem length_messages (x : Exchange) :
    x.messages.length = x.replies.length + x.messages.countP Message.isNotice := by
  have hreplies : (x.replies.map Message.reply).countP Message.isNotice = 0 := by
    simp [List.countP_map, Function.comp_def, Message.isNotice]
  rw [messages, List.length_append, List.countP_append, hreplies, List.length_map]
  cases x.ending <;> rfl

end Exchange

theorem Reply.toBytes_ne_nil (r : Reply) : r.toBytes ≠ [] := by
  cases r <;> exact List.cons_ne_nil _ _

theorem Reply.listToBytes_eq_nil_iff {rs : List Reply} : Reply.listToBytes rs = [] ↔ rs = [] := by
  refine ⟨fun h => ?_, fun h => by rw [h]; rfl⟩
  cases rs with
  | nil => rfl
  | cons r rs => exact absurd (List.append_eq_nil_iff.mp h).1 r.toBytes_ne_nil

namespace Server

open Wire (Decoder)

def Event.isAccept : Event → Bool
  | accept => true
  | _ => false

def tells (s : Server) : Event → List (Nat × Message)
  | .receive now id data =>
    match s.read? now id data with
    | some x => x.messages.map (id, ·)
    | none => []
  | _ => []

def told : Server → List Event → List (Nat × Message)
  | _, [] => []
  | s, e :: es => s.tells e ++ told (s.step e) es

def messagesOn (id : Nat) (ms : List (Nat × Message)) : List Message := (ms.filter (·.1 = id)).map (·.2)

structure Registered (s : Server) : Prop where
  nodup : s.connections.keys.Nodup
  lt_opened : ∀ id ∈ s.connections.keys, id < s.opened

variable {s : Server} {id : Nat} {e : Event} {es : List Event} {now : Instant} {data : Bytes}

theorem isServing_iff : s.isServing id = true ↔ id ∈ s.connections.keys := by
  rw [isServing, Option.isSome_iff_ne_none, Bindings.find?_ne_none_iff]

theorem Registered.active_eq (h : s.Registered) :
    s.active = (List.range s.opened).countP fun id => s.isServing id := by
  have hmem : ∀ id, id ∈ s.connections.keys ↔ id ∈ (List.range s.opened).filter fun id => s.isServing id := by
    intro id
    rw [List.mem_filter, List.mem_range, isServing_iff]
    exact ⟨fun hid => ⟨h.lt_opened id hid, hid⟩, fun hid => hid.2⟩
  have hperm := (List.perm_ext_iff_of_nodup h.nodup (List.nodup_range.filter _)).mpr hmem
  rw [active, List.countP_eq_length_filter, ← hperm.length_eq, Bindings.keys, List.length_map]

theorem registered_disconnect (id : Nat) (h : s.Registered) : (s.disconnect id).Registered where
  nodup := Bindings.nodup_erase h.nodup
  lt_opened j hj := h.lt_opened j ((List.filter_sublist.map _).subset hj)

theorem registered_settle (hid : id ∈ s.connections.keys) (x : Exchange) (h : s.Registered) :
    (s.settle id x).Registered := by
  by_cases hx : x.ending = .waiting
  · have hconnections : (s.settle id x).connections = s.connections.put id x.decoder := if_pos hx
    refine ⟨?_, fun j hj => ?_⟩
    · rw [hconnections]
      exact Bindings.nodup_put h.nodup
    · rw [hconnections, Bindings.mem_keys_put] at hj
      rcases hj with rfl | hj
      · exact h.lt_opened j hid
      · exact h.lt_opened j hj
  · have hconnections : (s.settle id x).connections = s.connections.erase id := if_neg hx
    obtain ⟨hnodup, hlt⟩ := registered_disconnect id h
    refine ⟨?_, fun j hj => ?_⟩
    · rw [hconnections]
      exact hnodup
    · rw [hconnections] at hj
      exact hlt j hj

theorem registered_step (h : s.Registered) (e : Event) : (s.step e).Registered := by
  cases e with
  | accept =>
    refine ⟨Bindings.nodup_put h.nodup, fun j hj => ?_⟩
    show j < s.opened + 1
    rcases Bindings.mem_keys_put.mp hj with rfl | hj
    · exact Nat.lt_succ_self _
    · exact Nat.lt_succ_of_lt (h.lt_opened j hj)
  | disconnect id => exact registered_disconnect id h
  | sweep now => exact ⟨h.nodup, h.lt_opened⟩
  | receive now id data =>
    rcases s.idle_or_serving id data with hidle | ⟨d, hd, hdata⟩
    · rw [step, receive_of_idle hidle]
      exact registered_disconnect id h
    · have hmem : id ∈ s.connections.keys := Bindings.find?_ne_none_iff.mp (by rw [hd]; exact Option.some_ne_none d)
      rw [step, receive_of_serving hd hdata]
      exact registered_settle hmem _ h

theorem registered_after (h : s.Registered) (es : List Event) : (s.after es).Registered := by
  induction es generalizing s with
  | nil => exact h
  | cons e es ih => exact ih (registered_step h e)

structure Counted (s : Server) (e : Event) : Prop where
  opened : (s.step e).opened = s.opened + if e.isAccept then 1 else 0
  requests : (s.step e).requests = s.requests + (s.keyspace.play (s.actions e)).1.length
  tells : (s.tells e).length =
    (s.keyspace.play (s.actions e)).1.length + (s.tells e).countP fun m => m.2.isNotice
  output : ∀ id, s.output id e = Reply.listToBytes ((messagesOn id (s.tells e)).map Message.toReply)

theorem tells_of_idle (h : s.connections.find? id = none ∨ data = []) :
    s.tells (.receive now id data) = [] := by
  rw [tells, read?_of_idle h]

theorem tells_of_serving {d : Decoder} (hd : s.connections.find? id = some d) (hdata : data ≠ []) :
    s.tells (.receive now id data) =
      (Exchange.run now s.requests [] (d.feed data) s.keyspace).messages.map (id, ·) := by
  rw [tells, read?_of_serving hd hdata]

theorem counted_of_idle (h : s.connections.find? id = none ∨ data = []) : s.Counted (.receive now id data) where
  opened := opened_receive id
  requests := by
    rw [actions_of_idle h, step, receive_of_idle h]
    rfl
  tells := by
    rw [actions_of_idle h, tells_of_idle h]
    rfl
  output j := by
    rw [tells_of_idle h, output, receive_of_idle h, ite_self]
    rfl

theorem messagesOn_self (id : Nat) (ms : List Message) : messagesOn id (ms.map (id, ·)) = ms := by
  simp [messagesOn, List.filter_map, Function.comp_def]

theorem messagesOn_of_ne {j : Nat} (h : j ≠ id) (ms : List Message) : messagesOn id (ms.map (j, ·)) = [] := by
  simp [messagesOn, List.filter_map, Function.comp_def, h]

theorem counted_of_serving {d : Decoder} (hd : s.connections.find? id = some d) (hdata : data ≠ []) :
    s.Counted (.receive now id data) := by
  have hplays : (Exchange.run now s.requests [] (d.feed data) s.keyspace).Plays id now s.requests [] s.keyspace
      (d.feed data).drain := Exchange.run_plays
  have hreplies : (Exchange.run now s.requests [] (d.feed data) s.keyspace).replies.length =
      (s.keyspace.play (s.actions (.receive now id data))).1.length := by
    rw [hplays.replies, actions_of_serving hd hdata, List.length_append, List.length_map]
    exact Nat.zero_add _
  refine ⟨opened_receive id, ?_, ?_, fun j => ?_⟩
  · rw [← hreplies, step, receive_of_serving hd hdata]
    exact Exchange.requests_run now s.requests (d.feed data) s.keyspace
  · rw [← hreplies, tells_of_serving hd hdata, List.length_map, List.countP_map]
    exact Exchange.length_messages _
  · rw [tells_of_serving hd hdata, output, receive_of_serving hd hdata]
    by_cases hj : id = j
    · subst hj
      rw [if_pos rfl, messagesOn_self]
      exact Exchange.toBytes_eq_messages _
    · rw [if_neg hj, messagesOn_of_ne hj]
      rfl

theorem counted (s : Server) (e : Event) : s.Counted e := by
  cases e with
  | accept | disconnect | sweep => exact ⟨rfl, rfl, rfl, fun id => rfl⟩
  | receive now id data =>
    rcases s.idle_or_serving id data with hidle | ⟨d, hd, hdata⟩
    · exact counted_of_idle hidle
    · exact counted_of_serving hd hdata

theorem messagesOn_append (id : Nat) (ms ns : List (Nat × Message)) :
    messagesOn id (ms ++ ns) = messagesOn id ms ++ messagesOn id ns := by
  rw [messagesOn, List.filter_append, List.map_append]
  rfl

theorem opened_after (s : Server) (es : List Event) :
    (s.after es).opened = s.opened + es.countP Event.isAccept := by
  induction es generalizing s with
  | nil => rfl
  | cons e es ih =>
    rw [after_cons, ih, (counted s e).opened, List.countP_cons]
    omega

theorem requests_after (s : Server) (es : List Event) :
    (s.after es).requests = s.requests + (s.keyspace.play (s.history es)).1.length := by
  induction es generalizing s with
  | nil => rfl
  | cons e es ih =>
    rw [after_cons, ih, (counted s e).requests, keyspace_step, history, Keyspace.play_append, List.length_append,
      Nat.add_assoc]

theorem length_told (s : Server) (es : List Event) :
    (s.told es).length =
      (s.keyspace.play (s.history es)).1.length + (s.told es).countP fun m => m.2.isNotice := by
  induction es generalizing s with
  | nil => rfl
  | cons e es ih =>
    rw [told, List.length_append, List.countP_append, ih, (counted s e).tells, keyspace_step, history,
      Keyspace.play_append, List.length_append]
    omega

theorem written_eq_told (id : Nat) (s : Server) (es : List Event) :
    s.written id es = Reply.listToBytes ((messagesOn id (s.told es)).map Message.toReply) := by
  induction es generalizing s with
  | nil => rfl
  | cons e es ih =>
    rw [written, ih, (counted s e).output, told, messagesOn_append, List.map_append, Reply.listToBytes_append]

theorem told_of_gone (h : s.Gone id es) : messagesOn id (s.told es) = [] := by
  have hwritten : Reply.listToBytes ((messagesOn id (s.told es)).map Message.toReply) = [] := by
    rw [← written_eq_told, h.written]
  exact List.map_eq_nil_iff.mp (Reply.listToBytes_eq_nil_iff.mp hwritten)

structure Accounts (s : Server) (es : List Event) : Prop where
  opened : (s.after es).opened = es.countP Event.isAccept
  serving : ∀ id, (s.after es).isServing id = true ↔
    id < (s.after es).opened ∧ s.ended id es = false ∧ (s.heard id es).ending = .waiting
  active : (s.after es).active = (List.range (s.after es).opened).countP fun id => (s.after es).isServing id
  executed : (s.after es).keyspace = (s.keyspace.play (s.history es)).2
  requests : (s.after es).requests = (s.keyspace.play (s.history es)).1.length
  answered : ∀ id, (s.answers id es).map (·.request) = upToQuit (s.heard id es).requests
  written : ∀ id, s.written id es = Reply.listToBytes ((messagesOn id (s.told es)).map Message.toReply)
  replies : (s.told es).length = (s.after es).requests + (s.told es).countP fun m => m.2.isNotice
  final : ∀ id, id < (s.after es).opened → (s.after es).isServing id = false →
    ∀ more, (s.after es).Gone id more ∧ messagesOn id ((s.after es).told more) = []

theorem accounts_after {s : Server} (hs : s.connections = []) (ho : s.opened = 0) (hr : s.requests = 0)
    (es : List Event) : s.Accounts es := by
  have hregistered : s.Registered := by
    constructor
    · rw [hs]
      exact List.nodup_nil
    · rw [hs]
      exact nofun
  have hserves : ∀ id, s.Serves id es (s.heard id es) := by
    intro id
    exact serves_of_unopened (by rw [hs]; rfl) (by omega) es
  have hrequests : (s.after es).requests = (s.keyspace.play (s.history es)).1.length := by
    rw [requests_after, hr, Nat.zero_add]
  refine ⟨?_, fun id => (hserves id).serving, (registered_after hregistered es).active_eq, keyspace_after s es, hrequests,
    fun id => (hserves id).requests, fun id => written_eq_told id s es, ?_, fun id hid hserving more => ?_⟩
  · rw [opened_after, ho, Nat.zero_add]
  · rw [hrequests]
    exact length_told s es
  · have hclosed : (s.after es).connections.find? id = none := by
      rw [isServing, Option.isSome_eq_false_iff, Option.isNone_iff_eq_none] at hserving
      exact hserving
    have hgone : (s.after es).Gone id more := gone_of_closed hclosed hid more
    exact ⟨hgone, told_of_gone hgone⟩

def thirdClient : List Event :=
  takingTurns ++ [.accept, .receive .nan 2 (.ofString "DBSIZE\r\nPING"), .receive .nan 0 (.ofString "PING\r\n")]

theorem accounts_after_thirdClient :
    unused.Accounts thirdClient ∧
      ((unused.after thirdClient).opened = 3 ∧ (unused.after thirdClient).active = 1 ∧
        (unused.after thirdClient).requests = 5) ∧
      (unused.told thirdClient).length = 6 :=
  ⟨accounts_after rfl rfl rfl thirdClient, by decide +kernel, by decide +kernel⟩

end Server

end RespStore
