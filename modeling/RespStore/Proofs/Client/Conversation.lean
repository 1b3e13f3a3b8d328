import RespStore.Client.Connection
import RespStore.Proofs.Wire.LongNumeral
import RespStore.Proofs.Wire.Verdict

/-! One client's calls, one after another, to a server that answers each request once and in order. Replies are read
off in the order of the answers, however earlier calls have ended: a call gets its own reply when nothing is pending
on the connection, and what an earlier call has left there when something is. -/

namespace RespStore

open Wire (Decoder Limits)

def Delivery.data : Delivery → Bytes
  | .bytes data => data
  | _ => []

def arrived (deliveries : List Delivery) : Bytes := deliveries.flatMap Delivery.data

theorem arrived_cons (e : Delivery) (es : List Delivery) : arrived (e :: es) = e.data ++ arrived es := rfl

theorem arrived_append (es fs : List Delivery) : arrived (es ++ fs) = arrived es ++ arrived fs :=
  List.flatMap_append

theorem arrived_bytes (reads : List Bytes) : arrived (reads.map .bytes) = reads.flatten := by
  induction reads with
  | nil => rfl
  | cons c cs ih =>
    rw [List.map_cons, arrived_cons, ih]
    rfl

namespace Client

theorem arrived_split (deliveries : List Delivery) : arrived (deliveries.flatMap split) = arrived deliveries := by
  induction deliveries with
  | nil => rfl
  | cons e es ih =>
    have he : arrived (split e) = e.data := by
      cases e with
      | bytes data =>
        cases data with
        | nil => rfl
        | cons b bs =>
          rw [split, arrived_bytes, Pieces.flatten_chunks]
          rfl
      | timeout => rfl
      | failure reason => rfl
    rw [List.flatMap_cons, arrived_append, he, ih, arrived_cons]

inductive Outcome where
  | decoded (reply : Reply)
  | closed
  | kept (told : Except Wire.DecodeError Reply)

def outcomeOf (d : Decoder) (queue : List Delivery) : Outcome :=
  match d.nextReply with
  | (.ok (some r), _) => .decoded r
  | (.error e, _) => .kept (.error e)
  | (.ok none, d) => match queue with
    | [] => .closed
    | .bytes [] :: _ => .closed
    | .bytes data :: rest => outcomeOf (d.feed data) rest
    | .timeout :: _ => .kept (.ok timedOut)
    | .failure reason :: _ => .kept (.ok (failed reason))

def outcome (deliveries : List Delivery) (c : Client) : Option Outcome :=
  c.arriving.map fun queue => outcomeOf c.decoder (queue ++ deliveries.flatMap split)

def unread (c : Client) : Bytes := c.decoder.buffer ++ arrived (c.arriving.getD [])

inductive Ending (limits : Limits) (b : Bytes) : Outcome → Except Wire.DecodeError Reply × Client → Prop
  | decoded {r : Reply} {front rest later : Bytes} {c : Client} (read : Wire.reply limits front = .done r rest)
    (before : b = front ++ later) (after : c.unread = rest ++ later) : Ending limits b (.decoded r) (.ok r, c)
  | closed {c : Client} (after : c.unread = []) : Ending limits b .closed (.ok closedByServer, c)
  | kept {told : Except Wire.DecodeError Reply} {c : Client} (after : c.unread = b) :
    Ending limits b (.kept told) (told, c)

theorem await_ends (d : Decoder) (queue : List Delivery) :
    Ending d.limits (d.buffer ++ arrived queue) (outcomeOf d queue) (await d queue) := by
  induction queue generalizing d with
  | nil =>
    rw [await, outcomeOf]
    cases hread : Wire.reply d.limits d.buffer with
    | more =>
      rw [Decoder.nextReply, hread]
      exact .closed rfl
    | fault e =>
      rw [Decoder.nextReply, hread]
      exact .kept rfl
    | done r rest =>
      rw [Decoder.nextReply, hread]
      exact .decoded hread rfl rfl
  | cons e es ih =>
    rw [await, outcomeOf]
    cases hread : Wire.reply d.limits d.buffer with
    | more =>
      rw [Decoder.nextReply, hread]
      cases e with
      | bytes data =>
        cases data with
        | nil => exact .closed rfl
        | cons b bs =>
          have hfed : d.buffer ++ arrived (.bytes (b :: bs) :: es) = (d.feed (b :: bs)).buffer ++ arrived es :=
            (List.append_assoc _ _ _).symm
          rw [hfed]
          exact ih (d.feed (b :: bs))
      | timeout => exact .kept rfl
      | failure reason => exact .kept rfl
    | fault e =>
      rw [Decoder.nextReply, hread]
      exact .kept rfl
    | done r rest =>
      rw [Decoder.nextReply, hread]
      exact .decoded hread rfl rfl

theorem send_ends {c : Client} {deliveries : List Delivery} {o : Outcome} (h : c.outcome deliveries = some o) :
    Ending c.decoder.limits (c.unread ++ arrived deliveries) o (c.send deliveries) := by
  obtain ⟨queue, hqueue, rfl⟩ := Option.map_eq_some_iff.mp h
  have hall : c.unread ++ arrived deliveries =
      c.decoder.buffer ++ arrived (queue ++ deliveries.flatMap split) := by
    rw [unread, hqueue, arrived_append, arrived_split, List.append_assoc]
    rfl
  rw [hall, send, hqueue]
  exact await_ends c.decoder _

end Client

/-- What can be asked of a client. A request is answered by its server sooner or later, and of what the server has
written so much arrives in the meantime. -/
inductive Move where
  | connect
  | refused
  | disconnect
  | send (deliveries : List Delivery) (answer : Reply)

/-- A client, the bytes that it held when its connection was opened, the answers on this connection that it has not
read, and the bytes of them that have not arrived. -/
structure Conversation where
  client : Client := {}
  stale : Bytes := []
  owed : List Reply := []
  coming : Bytes := []

namespace Conversation

open Client (Outcome Ending)

def sent (c : Conversation) (deliveries : List Delivery) (answer : Reply) : Outcome → Conversation :=
  let client := (c.client.send deliveries).2
  let coming := (c.coming ++ answer.toBytes).drop (arrived deliveries).length
  fun
  | .decoded _ => ⟨client, c.stale, (c.owed ++ [answer]).tail, coming⟩
  | .closed => { client }
  | .kept _ => ⟨client, c.stale, c.owed ++ [answer], coming⟩

def step (c : Conversation) : Move → Conversation
  | .connect => { client := c.client.connected, stale := c.client.decoder.buffer }
  | .refused => c
  | .disconnect => { client := c.client.disconnect }
  | .send deliveries answer =>
    match c.client.outcome deliveries with
    | none => c
    | some o => c.sent deliveries answer o

def fresh (limits : Limits) : Conversation := { client := { decoder := { limits } } }

def after (c : Conversation) (moves : List Move) : Conversation := moves.foldl step c

def pending (c : Conversation) : Bytes := c.client.unread ++ c.coming

/-- The server writes nothing but its answers, in texts that bytes are read as, and writes them in order. -/
def Allows (c : Conversation) : Move → Prop
  | .send deliveries answer => answer.Made (fun _ => True) ∧
    (c.client.isConnected = true → arrived deliveries <+: c.coming ++ answer.toBytes)
  | _ => True

def Honest : Conversation → List Move → Prop
  | _, [] => True
  | c, m :: ms => c.Allows m ∧ Honest (c.step m) ms

structure InStep (c : Conversation) : Prop where
  made : ∀ r ∈ c.owed, r.Made (fun _ => True)
  pending : c.stale = [] → c.pending = Reply.listToBytes c.owed

variable {c : Conversation} {deliveries : List Delivery} {answer r : Reply}

theorem isConnected_of_outcome {o : Outcome} (h : c.client.outcome deliveries = some o) :
    c.client.isConnected = true := by
  obtain ⟨queue, hqueue, -⟩ := Option.map_eq_some_iff.mp h
  rw [Client.isConnected, hqueue]
  rfl

theorem arrived_append_drop {b : Bytes} (h : arrived deliveries <+: b) :
    arrived deliveries ++ b.drop (arrived deliveries).length = b := by
  obtain ⟨later, rfl⟩ := h
  rw [List.drop_left]

theorem found_eq (h : c.Allows (.send deliveries answer)) {o : Outcome}
    (ho : c.client.outcome deliveries = some o) :
    c.pending ++ answer.toBytes =
      c.client.unread ++ arrived deliveries ++ (c.coming ++ answer.toBytes).drop (arrived deliveries).length := by
  rw [List.append_assoc, arrived_append_drop (h.2 (isConnected_of_outcome ho)), pending, List.append_assoc]

theorem step_send {o : Outcome} (ho : c.client.outcome deliveries = some o) :
    c.step (.send deliveries answer) = c.sent deliveries answer o := by
  rw [step, ho]

theorem read_of_decoded (h : c.Allows (.send deliveries answer))
    (hr : c.client.outcome deliveries = some (.decoded r)) :
    ∃ front rest later, Wire.reply c.client.decoder.limits front = .done r rest ∧
      c.pending ++ answer.toBytes = front ++ later ∧
      (c.step (.send deliveries answer)).pending = rest ++ later ∧ (c.client.send deliveries).1 = .ok r := by
  have hfound := found_eq h hr
  have hends := Client.send_ends hr
  rw [step_send hr, pending, sent]
  generalize c.client.send deliveries = sent at hends ⊢
  cases hends with
  | @decoded _ front rest later client read before unread =>
    rw [before, List.append_assoc] at hfound
    refine ⟨front, rest, _, read, hfound, ?_, rfl⟩
    show client.unread ++ _ = _
    rw [unread, List.append_assoc]

theorem pending_connect (c : Conversation) : (c.step .connect).pending = c.client.decoder.buffer := by
  show c.client.decoder.buffer ++ [] ++ [] = _
  rw [List.append_nil, List.append_nil]

theorem pending_of_closed (ho : c.client.outcome deliveries = some .closed) :
    (c.step (.send deliveries answer)).pending = [] := by
  have hends := Client.send_ends ho
  rw [step_send ho, pending, sent]
  generalize c.client.send deliveries = sent at hends ⊢
  cases hends with
  | closed after => exact List.append_eq_nil_iff.mpr ⟨after, rfl⟩

theorem InStep.made_append (hc : c.InStep) (h : c.Allows (.send deliveries answer)) :
    ∀ q ∈ c.owed ++ [answer], q.Made (fun _ => True) := by
  intro q hq
  rcases List.mem_append.mp hq with hq | hq
  · exact hc.made q hq
  · exact List.mem_singleton.mp hq ▸ h.1

theorem InStep.pending_append (hc : c.InStep) (hstale : c.stale = []) (answer : Reply) :
    c.pending ++ answer.toBytes = Reply.listToBytes (c.owed ++ [answer]) := by
  rw [hc.pending hstale, Reply.listToBytes_append, Reply.listToBytes, Reply.listToBytes, List.append_nil]

/-- On a connection that was opened with nothing held, the first reply to be read is the first that is owed. -/
theorem InStep.first (hc : c.InStep) (hstale : c.stale = []) (h : c.Allows (.send deliveries answer))
    (hr : c.client.outcome deliveries = some (.decoded r)) :
    ∃ first rest, c.owed ++ [answer] = first :: rest ∧ r = first.received ∧
      (c.step (.send deliveries answer)).pending = Reply.listToBytes rest := by
  obtain ⟨front, left, later, hread, hfound, hleft, -⟩ := read_of_decoded h hr
  have hall := hc.pending_append hstale answer
  have hmade := hc.made_append h
  cases howed : c.owed ++ [answer] with
  | nil => exact absurd howed (List.append_ne_nil_of_right_ne_nil _ (List.cons_ne_nil _ _))
  | cons first rest =>
    rw [howed] at hall hmade
    obtain ⟨rfl, hlater⟩ := Wire.eq_of_reply (hmade first List.mem_cons_self) hread (hfound.symm.trans hall)
    exact ⟨first, rest, rfl, rfl, hleft.trans hlater⟩

theorem inStep_fresh (limits : Limits) : (fresh limits).InStep := ⟨nofun, fun _ => rfl⟩

theorem InStep.send (hc : c.InStep) (h : c.Allows (.send deliveries answer)) {o : Outcome}
    (ho : c.client.outcome deliveries = some o) : (c.step (.send deliveries answer)).InStep := by
  have hmade := hc.made_append h
  cases o with
  | decoded r =>
    constructor
    · rw [step_send ho]
      exact fun q hq => hmade q (List.mem_of_mem_tail hq)
    · intro hstale
      rw [step_send ho] at hstale
      obtain ⟨first, rest, howed, -, hleft⟩ := hc.first hstale h ho
      rw [hleft, step_send ho, sent, howed]
      rfl
  | closed =>
    refine ⟨?_, fun _ => ?_⟩
    · rw [step_send ho]
      exact nofun
    · rw [pending_of_closed ho, step_send ho]
      rfl
  | kept told =>
    have hfound := found_eq h ho
    have hends := Client.send_ends ho
    rw [step_send ho]
    refine ⟨hmade, fun hstale => ?_⟩
    show (c.client.send deliveries).2.unread ++ _ = Reply.listToBytes (c.owed ++ [answer])
    rw [← hc.pending_append hstale answer, hfound]
    generalize c.client.send deliveries = sent at hends ⊢
    cases hends with
    | kept after =>
      rw [after]
      rfl

theorem InStep.step (hc : c.InStep) {m : Move} (h : c.Allows m) : (c.step m).InStep := by
  cases m with
  | connect =>
    refine ⟨nofun, fun hstale => ?_⟩
    have hbuffer : c.client.decoder.buffer = [] := hstale
    rw [pending_connect, hbuffer]
    rfl
  | refused => exact hc
  | disconnect => exact ⟨nofun, fun _ => rfl⟩
  | send deliveries answer =>
    cases ho : c.client.outcome deliveries with
    | none =>
      rw [Conversation.step, ho]
      exact hc
    | some o => exact hc.send h ho

theorem InStep.after (hc : c.InStep) {moves : List Move} (h : c.Honest moves) : (c.after moves).InStep := by
  induction moves generalizing c with
  | nil => exact hc
  | cons m ms ih => exact ih (hc.step h.1) h.2

theorem own_of_nothing_pending (hp : c.pending = []) (h : c.Allows (.send deliveries answer))
    (hr : c.client.outcome deliveries = some (.decoded r)) :
    r = answer.received ∧ (c.step (.send deliveries answer)).pending = [] := by
  obtain ⟨front, left, later, hread, hfound, hleft, -⟩ := read_of_decoded h hr
  rw [hp, List.nil_append, ← List.append_nil answer.toBytes] at hfound
  obtain ⟨hown, hnone⟩ := Wire.eq_of_reply h.1 hread hfound.symm
  exact ⟨hown, hleft.trans hnone⟩

/-- Ends with a reply or at the end of the stream, if it is a call. -/
def Concludes (c : Conversation) : Move → Prop
  | .send deliveries _ => ∀ told, c.client.outcome deliveries ≠ some (.kept told)
  | _ => True

def Concluded : Conversation → List Move → Prop
  | _, [] => True
  | c, m :: ms => c.Concludes m ∧ Concluded (c.step m) ms

theorem nothing_pending_step (hp : c.pending = []) {m : Move} (h : c.Allows m) (hm : c.Concludes m) :
    (c.step m).pending = [] := by
  cases m with
  | connect =>
    obtain ⟨hunread, -⟩ := List.append_eq_nil_iff.mp hp
    obtain ⟨hbuffer, -⟩ := List.append_eq_nil_iff.mp hunread
    exact (pending_connect c).trans hbuffer
  | refused => exact hp
  | disconnect => rfl
  | send deliveries answer =>
    cases ho : c.client.outcome deliveries with
    | none =>
      rw [step, ho]
      exact hp
    | some o =>
      cases o with
      | decoded r => exact (own_of_nothing_pending hp h ho).2
      | closed => exact pending_of_closed ho
      | kept told => exact absurd ho (hm told)

theorem nothing_pending_after (hp : c.pending = []) {moves : List Move} (h : c.Honest moves)
    (hconcluded : c.Concluded moves) : (c.after moves).pending = [] := by
  induction moves generalizing c with
  | nil => exact hp
  | cons m ms ih => exact ih (nothing_pending_step hp h.1 hconcluded.1) h.2 hconcluded.2

theorem after_append (c : Conversation) (ms ns : List Move) : c.after (ms ++ ns) = (c.after ms).after ns :=
  List.foldl_append

theorem Honest.of_append {ms ns : List Move} (h : c.Honest (ms ++ ns)) : (c.after ms).Honest ns := by
  induction ms generalizing c with
  | nil => exact h
  | cons m ms ih => exact ih h.2

/-- A call that reads a reply returns it. The bytes of it are the first that are pending. They are those of its own
answer if nothing was pending at one time and all calls since have ended with a reply or at the end of the
stream; on a connection that was opened with nothing held, they are those of the first answer that is owed. -/
theorem replies_in_order {limits : Limits} {before : List Move} (hbefore : (fresh limits).Honest before)
    (hc : (fresh limits).after before = c) (h : c.Allows (.send deliveries answer))
    (hr : c.client.outcome deliveries = some (.decoded r)) :
    (c.client.send deliveries).1 = .ok r ∧
      ∃ taken, taken ≠ [] ∧ c.pending ++ answer.toBytes = taken ++ (c.step (.send deliveries answer)).pending ∧
        (∀ earlier since, before = earlier ++ since → ((fresh limits).after earlier).pending = [] →
          ((fresh limits).after earlier).Concluded since → taken = answer.toBytes ∧ r = answer.received) ∧
        (c.stale = [] → ∃ first rest, c.owed ++ [answer] = first :: rest ∧
          (c.step (.send deliveries answer)).owed = rest ∧ taken = first.toBytes ∧ r = first.received) := by
  have hin : c.InStep := hc ▸ (inStep_fresh limits).after hbefore
  obtain ⟨front, left, later, hread, hfound, hleft, htold⟩ := read_of_decoded h hr
  obtain ⟨taken, hne, htaken⟩ := Wire.taken_of_reply hread
  have hsplit : c.pending ++ answer.toBytes = taken ++ (c.step (.send deliveries answer)).pending := by
    rw [hfound, hleft, ← htaken, List.append_assoc]
  refine ⟨htold, taken, hne, hsplit, fun earlier since hsince hp hconcluded => ?_, fun hstale => ?_⟩
  · have hpending : c.pending = [] := by
      rw [hsince] at hbefore
      rw [← hc, hsince, after_append]
      exact nothing_pending_after hp hbefore.of_append hconcluded
    obtain ⟨hown, hnone⟩ := own_of_nothing_pending hpending h hr
    rw [hpending, hnone, List.append_nil, List.nil_append] at hsplit
    exact ⟨hsplit.symm, hown⟩
  · obtain ⟨first, rest, howed, hfirst, hrest⟩ := hin.first hstale h hr
    refine ⟨first, rest, howed, ?_, ?_, hfirst⟩
    · rw [step_send hr, sent, howed]
      rfl
    · have hall := hin.pending_append hstale answer
      rw [hsplit, hrest, howed, Reply.listToBytes] at hall
      exact List.append_cancel_right hall

def interrupted : List Move := [.connect, .send [.bytes (.ofString "+PO"), .timeout] (.status (.ofString "PONG"))]

def value : Reply := .bulk (.ofString "v")

def valueArrives : List Delivery := [.bytes (.ofString "$1\r\nv\r\n")]

theorem honest_interrupted : (fresh {}).Honest interrupted := by
  refine ⟨trivial, ⟨.status (Text.isDecoded_ofChars _), fun _ => ?_⟩, trivial⟩
  decide +kernel

theorem replies_in_order_disconnected :
    (fresh {}).Honest (interrupted ++ [.disconnect, .connect]) ∧
      (((fresh {}).after (interrupted ++ [.disconnect, .connect])).client.send valueArrives).1 = .ok value := by
  have hhonest : (fresh {}).Honest (interrupted ++ [.disconnect, .connect]) :=
    ⟨honest_interrupted.1, honest_interrupted.2.1, trivial, trivial, trivial⟩
  have hallowed : ((fresh {}).after (interrupted ++ [.disconnect, .connect])).Allows (.send valueArrives value) :=
    ⟨.bulk trivial, fun _ => by decide +kernel⟩
  have hread : ((fresh {}).after (interrupted ++ [.disconnect, .connect])).client.outcome valueArrives =
    some (.decoded value) := by with_unfolding_all rfl
  exact ⟨hhonest, (replies_in_order hhonest rfl hallowed hread).1⟩

/-- On a new connection, without taking leave of the old one, the next call gets its reply mixed with what is left of
the other's; on the old connection, it gets the other's when that is there at last. -/
theorem interrupted_unanswered :
    (fresh {}).Honest (interrupted ++ [.connect]) ∧
      ((fresh {}).after (interrupted ++ [.connect])).Allows (.send valueArrives value) ∧
      ((fresh {}).after (interrupted ++ [.connect])).client.outcome valueArrives =
        some (.decoded (.status (.ofString "PO$1"))) ∧
      ((fresh {}).after interrupted).Allows (.send (.bytes (.ofString "NG\r\n") :: valueArrives) value) ∧
      ((fresh {}).after interrupted).client.outcome (.bytes (.ofString "NG\r\n") :: valueArrives) =
        some (.decoded (.status (.ofString "PONG"))) ∧
      ∀ t, value.received ≠ .status t := by
  refine ⟨⟨honest_interrupted.1, honest_interrupted.2.1, trivial, trivial⟩, ⟨.bulk trivial, fun _ => ?_⟩, ?_,
    ⟨.bulk trivial, fun _ => ?_⟩, ?_, nofun⟩
  · decide +kernel
  · with_unfolding_all rfl
  · decide +kernel
  · with_unfolding_all rfl

end Conversation

end RespStore
