import RespStore.Client.Connection
import RespStore.Proofs.Server.Bounds
import RespStore.Proofs.Server.Turnaround

/-! Calls over the wire. What a client gets for each request that it sends is what executing the request gives,
however the bytes of both are cut into reads and whatever other connections do; and nothing is left over. -/

namespace RespStore

open Wire (Decoder)

namespace Client

def fresh : Client := ({} : Client).connected

variable {reply : Reply}

theorem await_whole (hs : reply.Sendable {}) (hf : reply.Fits {}) {p : Bytes} {chunks : List Bytes}
    (hne : [] ∉ chunks) (hwhole : p ++ chunks.flatten = reply.toBytes) :
    await (({} : Decoder).feed p) (chunks.map .bytes) = (.ok reply.received, fresh) := by
  induction chunks generalizing p with
  | nil =>
    have hall : p = reply.toBytes ++ [] := by simpa using hwhole
    rw [hall, await, Decoder.nextReply_toBytes hs, Decoder.feed_nil]
    rfl
  | cons c cs ih =>
    obtain ⟨hc, hcs⟩ := not_or.mp (mt List.mem_cons.mpr hne)
    rw [List.flatten_cons, ← List.append_assoc] at hwhole
    have hproper : p ≠ reply.toBytes := by
      intro hp
      rw [hp, List.append_assoc] at hwhole
      exact hc (List.append_eq_nil_iff.mp (List.append_right_eq_self.mp hwhole)).1.symm
    have hprefix : p <+: reply.toBytes := ⟨c ++ cs.flatten, by rw [← List.append_assoc]; exact hwhole⟩
    have hlimit : Numeral.maxDigits + 1 < ({} : Wire.Limits).line := by decide
    have hnext := Wire.nextReply_of_broken hs (Wire.shortLined_of_fits hlimit hs hf) hprefix hproper
    cases c with
    | nil => exact absurd rfl hc
    | cons b bs =>
      rw [List.map_cons, await, hnext]
      dsimp only
      rw [Decoder.feed_feed]
      exact ih hcs hwhole

theorem flatMap_split {reads : List Bytes} (hne : [] ∉ reads) :
    (reads.map Delivery.bytes).flatMap split = (reads.flatMap (Pieces.chunks readSize)).map .bytes := by
  induction reads with
  | nil => rfl
  | cons c cs ih =>
    obtain ⟨hc, hcs⟩ := not_or.mp (mt List.mem_cons.mpr hne)
    rw [List.map_cons, List.flatMap_cons, List.flatMap_cons, List.map_append, ih hcs]
    cases c with
    | nil => exact absurd rfl hc
    | cons b bs => rfl

theorem flatten_flatMap_chunks (reads : List Bytes) :
    (reads.flatMap (Pieces.chunks readSize)).flatten = reads.flatten := by
  induction reads with
  | nil => rfl
  | cons c cs ih => rw [List.flatMap_cons, List.flatten_append, Pieces.flatten_chunks, ih, List.flatten_cons]

theorem send_whole (hs : reply.Sendable {}) (hf : reply.Fits {}) {reads : List Bytes} (hne : [] ∉ reads)
    (hwhole : reads.flatten = reply.toBytes) :
    fresh.send (reads.map .bytes) = (.ok reply.received, fresh) := by
  have hchunks : [] ∉ reads.flatMap (Pieces.chunks readSize) := by
    intro h
    obtain ⟨c, -, hc⟩ := List.mem_flatMap.mp h
    exact Pieces.nil_not_mem_chunks readSize c hc
  have hall : [] ++ (reads.flatMap (Pieces.chunks readSize)).flatten = reply.toBytes := by
    rw [flatten_flatMap_chunks]
    exact hwhole
  have hawait := await_whole hs hf hchunks hall
  rw [Decoder.feed_nil, ← flatMap_split hne] at hawait
  exact hawait

end Client

/-- A request that a client sends, what happens at the server meanwhile, and the reads that bring the reply. -/
structure Call where
  parts : List Part
  events : List Server.Event
  reads : List Bytes

namespace Call

def request (c : Call) : Request := .ofParts (c.parts.map Part.toBytes)

/-- All that either side writes arrives, in reads of any size that a server takes, and the client does not
hang up. -/
structure Carried (id : Nat) (s : Server) (c : Call) : Prop where
  encodable : Request.Encodable {} c.parts
  offered : Server.offered id c.events = Request.encodeParts c.parts
  ends : ∀ e ∈ c.events, e.ends id = false
  isRead : ∀ e ∈ c.events, e.IsRead
  read : c.reads.flatten = s.written id c.events
  ne_nil : [] ∉ c.reads

/-- Each call, as long as no request has taken leave and every reply fits, returns what executing its request at
some point of the history gives, and leaves the client as it was. -/
def Answered (id : Nat) : Server → List Call → Prop
  | _, [] => True
  | s, c :: cs => c.Carried id s → ∃ before now after,
      s.history c.events = before ++ .execute id now c.request :: after ∧
        let reply := (execute now (s.keyspace.play before).2 c.request).1
        reply.Fits {} → Client.fresh.send (c.reads.map .bytes) = (.ok reply.received, Client.fresh) ∧
          (c.request.isQuit = false → Answered id (s.after c.events) cs)

end Call

namespace Server

variable {s : Server} {id : Nat} {es : List Event}

theorem opened_le_step (s : Server) (e : Event) : s.opened ≤ (s.step e).opened := by
  cases e with
  | accept => exact Nat.le_succ _
  | disconnect id => exact Nat.le_refl _
  | sweep now => exact Nat.le_refl _
  | receive now id data => rw [opened_receive]

theorem opened_le_after (s : Server) (es : List Event) : s.opened ≤ (s.after es).opened := by
  induction es generalizing s with
  | nil => exact Nat.le_refl _
  | cons e es ih => exact Nat.le_trans (opened_le_step s e) (ih (s.step e))

theorem Tidy.sendable (hs : s.Tidy) {c : Call} (hc : c.Carried id s) {before after : List Action} {now : Instant}
    (hexecuted : s.history c.events = before ++ .execute id now c.request :: after)
    (hf : (execute now (s.keyspace.play before).2 c.request).1.Fits {}) :
    (execute now (s.keyspace.play before).2 c.request).1.Sendable {} := by
  have hhistory : ∀ a ∈ s.history c.events, a.IsShort := hs.history hc.isRead
  rw [hexecuted] at hhistory
  have hholds : (s.keyspace.play before).2.Holds Bytes.IsShort :=
    hs.holds.play fun a ha => hhistory a (List.mem_append_left _ ha)
  have hargs : ∀ b ∈ c.request.args, Bytes.IsShort b :=
    hhistory _ (List.mem_append_right _ List.mem_cons_self)
  have hpong : Bytes.IsShort (.ofString "PONG") := by unfold Bytes.IsShort; decide
  have hmade : (execute now (s.keyspace.play before).2 c.request).1.Made Bytes.IsShort :=
    execute_made hholds (Request.isDecoded_name_ofParts _) hargs hpong
  refine hmade.sendable hf fun b hb => ?_
  have hlength : (b.length : Int) ≤ 512 * 1024 * 1024 := hb
  omega

theorem Tidy.answered (hs : s.Tidy) (hd : s.connections.find? id = some {}) (hid : id < s.opened)
    (calls : List Call) : Call.Answered id s calls := by
  induction calls generalizing s with
  | nil => trivial
  | cons c cs ih =>
    intro hc
    obtain ⟨before, now, ⟨after, hexecuted⟩, hwritten, hfresh⟩ := turnaround hc.encodable hd hid hc.offered hc.ends
    refine ⟨before, now, after, hexecuted, fun hf => ⟨?_, fun hquit => ?_⟩⟩
    · exact Client.send_whole (hs.sendable hc hexecuted hf) hf hc.ne_nil (hc.read.trans hwritten)
    · exact ih (hs.after hc.isRead) (hfresh hquit) (Nat.lt_of_lt_of_le hid (opened_le_after s c.events))

/-- Calling through a client and the wire is calling the server itself. -/
theorem calls_answered (hconnections : s.connections = []) (hkeyspace : s.keyspace = []) {before : List Event}
    (hbefore : ∀ e ∈ before, e.IsRead) (calls : List Call) :
    Call.Answered (s.after before).opened ((s.after before).step .accept) calls := by
  have hempty : s.Tidy := by
    refine ⟨fun {id d} h => ?_, ?_⟩
    · rw [hconnections] at h
      cases h
    · rw [hkeyspace]
      exact Keyspace.holds_nil
  have htidy : ((s.after before).step .accept).Tidy := (hempty.after hbefore).step trivial
  exact htidy.answered (Bindings.find?_put_self _ _ _) (Nat.lt_succ_self _) calls

def splitEcho : Call where
  parts := [.text (.ofString "ECHO"), .bytes (.ofString "hi")]
  events := [.receive .zero 0 (.ofString "*2\r\n$4\r\nEC"), .accept, .receive .zero 1 (.ofString "SET k v\r\n"),
    .sweep .zero, .receive .zero 0 (.ofString "HO\r\n$2\r\nhi\r\n")]
  reads := [.ofString "$2\r", .ofString "\nhi\r\n"]

theorem carried_splitEcho : splitEcho.Carried 0 (unused.step .accept) where
  encodable := by
    refine ⟨List.cons_ne_nil _ _, by decide, by decide +kernel, Numeral.readable_iff.mp (by decide +kernel), ?_⟩
    exact fun p hp => Numeral.readable_iff.mp (by revert p; decide +kernel)
  offered := by decide +kernel
  ends := by decide +kernel
  isRead := by decide +kernel
  read := by decide +kernel
  ne_nil := by decide +kernel

theorem calls_answered_splitEcho :
    splitEcho.Carried 0 (unused.step .accept) ∧
      Client.fresh.send (splitEcho.reads.map .bytes) = (.ok (.bulk (.ofString "hi")), Client.fresh) := by
  have hnone : ∀ e ∈ ([] : List Event), e.IsRead := fun e he => by cases he
  have hanswered := calls_answered (s := unused) rfl rfl hnone [splitEcho]
  obtain ⟨before, now, after, -, hcall⟩ := hanswered carried_splitEcho
  have hrequest : splitEcho.request = .of .echo [.ofString "hi"] := by decide +kernel
  have hreply : ∀ k, (execute now k splitEcho.request).1 = .bulk (.ofString "hi") := by
    intro k
    rw [hrequest, execute_eq, Dispatch.perform_of _ _ rfl]
    rfl
  rw [hreply] at hcall
  exact ⟨carried_splitEcho, (hcall (.bulk _)).1⟩

end Server

end RespStore
