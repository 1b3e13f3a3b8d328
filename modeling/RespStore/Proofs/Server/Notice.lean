import RespStore.Proofs.Server.History
import RespStore.Proofs.Wire.LongNumeral

/-! What a connection is told when its stream is at fault. A fault of the protocol is told in one error after
the replies; a number that is never read is not told at all. Either way the connection is then closed. -/

namespace RespStore

open Wire Numeral

namespace Wire

variable {n : Nat}

def DecodeError.notice : DecodeError → Bytes
  | .protocol f => .ofString "-ERR Protocol error: " ++ (oneLine f.detail).toBytes ++ crlf
  | .numeralTooLong _ => []

theorem oneLine_append (t u : Text) : oneLine (t ++ u) = oneLine t ++ oneLine u := List.map_append

theorem line_error (f : ProtocolFault) : f.error.line = .ofString "ERR Protocol error: " ++ f.detail := rfl

theorem notice_ending (e : DecodeError) :
    Reply.listToBytes (Exchange.notice (Decoding.endingOf (some e))).toList = e.notice := by
  cases e with
  | numeralTooLong n => rfl
  | protocol f =>
    show lineOf errorMark (oneLine f.error.line).toBytes ++ [] = _
    rw [line_error, oneLine_append, Text.toBytes_append, List.append_nil]
    rfl

theorem Decoder.stuck_of_drain {d : Decoder} (h : d.drain.fault = some (.numeralTooLong n)) :
    d.drain.decoder.Stuck n := by
  fun_induction Decoder.drain d with
  | case1 d f e hn =>
    obtain rfl := Option.some.inj h
    exact stuck_of_next hn
  | case2 => cases h
  | case3 d r e hn ih => exact ih h

end Wire

namespace Server

variable {s : Server} {id : Nat} {es : List Event}

/-- The service of a connection whose stream is found at fault: after the replies to all requests before it one
notice, unless a number is never read, and the end. -/
structure Notified (id : Nat) (s : Server) (es : List Event) (e : DecodeError) : Prop where
  requests : (s.answers id es).map (·.request) = (s.heard id es).requests
  written : s.written id es = Reply.listToBytes ((s.answers id es).map (·.reply)) ++ e.notice
  closed : (s.after es).isServing id = false
  stuck : ∀ n, e = .numeralTooLong n → (s.heard id es).decoder.Stuck n

theorem Serves.notified {e : DecodeError} (h : s.Serves id es (s.heard id es))
    (hq : (s.heard id es).hasQuit = false) (he : (s.heard id es).fault = some e) :
    s.Notified id es e := by
  have hending : (s.heard id es).ending = Decoding.endingOf (some e) := by
    rw [Decoding.ending_of_not_hasQuit hq, he]
  refine ⟨?_, ?_, ?_, ?_⟩
  · rw [h.requests, upToQuit_of_none hq]
  · rw [h.written, hending, Reply.listToBytes_append, notice_ending]
  · have hwaiting : (s.heard id es).ending ≠ .waiting := by
      rw [hending]
      cases e <;> simp [Decoding.endingOf]
    rw [Bool.eq_false_iff]
    exact fun hs => hwaiting (h.serving.mp hs).2.2
  · rintro n rfl
    exact Decoder.stuck_of_drain he

/-- Whatever bytes there are, decoding them fails by a fault of the protocol, or at a header whose number has
more digits than are ever read; and a connection is told of the one, and closed after either. -/
theorem malformed_notified (d : Decoder) (hs : s.connections = []) (ho : s.opened = 0)
    (es : List Event) (id : Nat) :
    (∀ e d', d.next = (.error e, d') → (∃ f, e = .protocol f) ∨ ∃ n, e = .numeralTooLong n ∧ d'.Stuck n) ∧
    (∀ n, d.Stuck n → d.next = (.error (.numeralTooLong n), d)) ∧
    (∀ e d', d.nextReply = (.error e, d') → d' = d ∧
      ((∃ f, e = .protocol f) ∨ ∃ n mark t, e = .numeralTooLong n ∧ takesNumber mark = true ∧
        OverlongHeader mark n t ∧ t <:+ d.buffer)) ∧
    ∀ e, (s.heard id es).hasQuit = false → (s.heard id es).fault = some e → s.Notified id es e := by
  refine ⟨?_, fun n h => h.next_eq, ?_, ?_⟩
  · intro e d' h
    cases e with
    | protocol f => exact .inl ⟨f, rfl⟩
    | numeralTooLong n => exact .inr ⟨n, rfl, Decoder.stuck_of_next h⟩
  · intro e d' h
    obtain ⟨rfl, he⟩ := Decoder.reply_of_nextReply h
    refine ⟨rfl, ?_⟩
    cases e with
    | protocol f => exact .inl ⟨f, rfl⟩
    | numeralTooLong n =>
      obtain ⟨mark, t, hmark, hlong, ht⟩ := replyWithin_tooLong he
      exact .inr ⟨n, mark, t, rfl, hmark, hlong, ht⟩
  · intro e hq he
    have hserves : s.Serves id es (s.heard id es) := serves_of_unopened (by rw [hs]; rfl) (by omega) es
    exact hserves.notified hq he

theorem malformed_notified_takingTurns :
    unused.Notified 0 takingTurns (.protocol .multibulkLength) :=
  (malformed_notified {} rfl rfl takingTurns 0).2.2.2 _ (by decide +kernel) (by decide +kernel)

def overlongArray : Bytes := starMark :: ((Spelling.run ⟨1, by decide⟩ maxDigits).toBytes ++ crlf)

theorem overlongArray_unnotified :
    let d := ({} : Decoder).feed overlongArray
    let es := [.accept, .receive .zero 0 overlongArray]
    d.next = (.error (.numeralTooLong 4301), d) ∧
      unused.written 0 es = [] ∧ (unused.after es).isServing 0 = false := by
  intro d es
  have hlong : OverlongLine 4301 ((Spelling.run 1 maxDigits).toBytes ++ crlf) :=
    ⟨_, [], overlong_run 1, (List.append_nil _).symm⟩
  have hstuck : d.Stuck 4301 := ⟨fun r hr => (by cases hr), _, hlong, rfl⟩
  have hsent : unused.sent 0 es = overlongArray := by
    simp [es, sent, input, step, accept, isServing, unused, Bindings.put, Bindings.find?]
  have hheard : unused.heard 0 es = ⟨[], some (.numeralTooLong 4301), d⟩ := by
    rw [heard, hsent]
    exact Decoder.drain_of_error hstuck.next_eq
  have hnotified : unused.Notified 0 es (.numeralTooLong 4301) := by
    refine (serves_of_unopened rfl (Nat.zero_le 0) es).notified ?_ ?_
    · rw [hheard]; rfl
    · rw [hheard]
  have hanswers : unused.answers 0 es = [] := by
    have hrequests := hnotified.requests
    rw [hheard] at hrequests
    exact List.map_eq_nil_iff.mp hrequests
  refine ⟨hstuck.next_eq, ?_, hnotified.closed⟩
  rw [hnotified.written, hanswers]
  rfl

end Server

end RespStore
