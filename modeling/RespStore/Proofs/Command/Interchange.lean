import RespStore.Proofs.Command.Contents
import RespStore.Proofs.Command.Timeline
import RespStore.Proofs.Wire.Delivery

/-! The two ends of a connection. What executing a request gives is made of texts and bytes that were read, so the
other end, under the same limits, reads it as it is meant or not at all; only a reply that has grown beyond the limits
over many requests, or repeats a long name in a line, is not read. -/

namespace RespStore

open Wire (Decoder Decoding Limits fill seek scan)

namespace Wire

variable {limits : Limits}

theorem exists_parts_of_fill {n : Nat} {args : List Bytes} {b : Bytes} {r : Request}
    (h : (fill limits n args b).found = .ok (some r)) : ∃ parts, r = .ofParts parts := by
  induction n generalizing args b with
  | zero => exact ⟨args.reverse, (Option.some.inj (Except.ok.inj h)).symm⟩
  | succ n ih =>
    rw [fill] at h
    split at h
    · cases h
    · cases h
    · exact ih h

theorem exists_parts_of_seek {b : Bytes} {r : Request} (h : (seek limits b).found = .ok (some r)) :
    ∃ parts, r = .ofParts parts := by
  fun_induction seek limits b with
  | case1 => cases h
  | case2 => cases h
  | case3 b rest ho ih => exact ih h
  | case4 b n rest ho => exact exists_parts_of_fill h
  | case5 b w ws rest ho => exact ⟨w :: ws, (Option.some.inj (Except.ok.inj h)).symm⟩

theorem Decoder.exists_parts_of_next {d e : Decoder} {r : Request} (h : d.next = (.ok (some r), e)) :
    ∃ parts, r = .ofParts parts := by
  have hfound : (scan d.limits d.buffer d.draft).found = .ok (some r) := congrArg Prod.fst h
  cases hd : d.draft with
  | none =>
    rw [hd] at hfound
    exact exists_parts_of_seek hfound
  | some x =>
    rw [hd] at hfound
    exact exists_parts_of_fill hfound

theorem Decoder.exists_parts_of_drain {d : Decoder} {r : Request} (h : r ∈ d.drain.requests) :
    ∃ parts, r = .ofParts parts := by
  fun_induction drain d with
  | case1 => cases h
  | case2 => cases h
  | case3 d q e hn ih =>
    rcases List.mem_cons.mp h with rfl | h
    · exact exists_parts_of_next hn
    · exact ih h

theorem Decoder.exists_parts_of_decode {d : Decoder} {cs : List Bytes} {r : Request}
    (h : r ∈ (d.decode cs).requests) : ∃ parts, r = .ofParts parts := by
  induction cs generalizing d with
  | nil => cases h
  | cons c cs ih =>
    rw [decode] at h
    split at h
    · exact exists_parts_of_drain h
    · rcases List.mem_append.mp h with h | h
      · exact exists_parts_of_drain h
      · exact ih h

end Wire

/-- Comes out of some stream, however that is cut. -/
def Request.Accepted (limits : Limits) (r : Request) : Prop :=
  ∃ cs : List Bytes, r ∈ (({ limits } : Decoder).decode cs).requests

theorem Request.Accepted.isDecoded_name {limits : Limits} {r : Request} (h : r.Accepted limits) :
    r.name.IsDecoded := by
  obtain ⟨cs, hcs⟩ := h
  obtain ⟨parts, rfl⟩ := Decoder.exists_parts_of_decode hcs
  exact isDecoded_name_ofParts parts

namespace Moment

variable {Q : Bytes → Prop} {m : Moment} {es : List Event} {r : Request} {limits : Limits}

theorem holds_after (hm : m.keyspace.Holds Q) (hes : ∀ q, .request q ∈ es → ∀ b ∈ q.args, Q b) :
    (m.after es).keyspace.Holds Q := by
  induction es generalizing m with
  | nil => exact hm
  | cons e es ih =>
    refine ih (m := m.step e) ?_ fun q hq => hes q (List.mem_cons_of_mem e hq)
    cases e with
    | request q =>
      have hexecute : (m.step (.request q)).keyspace = (execute m.now m.keyspace q).2 := by
        rw [execute_eq]
        show (dispatch m.now m.keyspace q).2 = _
        rw [dispatch_eq]
      rw [hexecute]
      exact hm.request (hes q List.mem_cons_self)
    | clock later => exact hm
    | sweep => exact hm.sweep

theorem execute_made_after (es : List Event) (hname : r.name.IsDecoded) (now : Instant)
    (hes : ∀ q, .request q ∈ es → ∀ b ∈ q.args, Q b) (hr : ∀ b ∈ r.args, Q b) (hpong : Q (.ofString "PONG")) :
    (execute ((Moment.mk now []).after es).now ((Moment.mk now []).after es).keyspace r).1.Made Q := by
  have hempty : (Moment.mk now []).keyspace.Holds Q := Keyspace.holds_nil
  exact execute_made (holds_after hempty hes) hname hr hpong

/-- Whatever has been executed before, the reply to a request that one end accepts is delivered to the other; and no
bulk in it is longer than an argument may be, if none has been. -/
theorem replies_delivered (limits : Limits) (now : Instant) (es : List Event) (hr : r.Accepted limits) :
    let m := (Moment.mk now []).after es
    (execute m.now m.keyspace r).1.Delivered limits ∧
      (4 ≤ limits.bulk → (∀ q, .request q ∈ es ∨ q = r → ∀ b ∈ q.args, b.length ≤ limits.bulk) →
        (execute m.now m.keyspace r).1.Made fun b => b.length ≤ limits.bulk) := by
  have hname : r.name.IsDecoded := hr.isDecoded_name
  constructor
  · have hmade := execute_made_after (Q := fun _ => True) es hname now (fun _ _ _ _ => trivial)
      (fun _ _ => trivial) trivial
    exact Decoder.delivered limits hmade
  · intro hbulk hargs
    exact execute_made_after es hname now (fun q hq => hargs q (.inl hq)) (hargs r (.inr rfl)) hbulk

def pushTwo : Request := ⟨.ofString "RPUSH", [.ofString "l", .ofString "a", .ofString "b"]⟩

def wholeList : Request := ⟨.ofString "LRANGE", [.ofString "l", .ofString "0", .ofString "-1"]⟩

def grown (n : Nat) : Moment := (Moment.mk .zero []).after (List.replicate n (.request pushTwo))

theorem execute_wholeList :
    (execute (grown 1).now (grown 1).keyspace wholeList).1 = .array [.bulk [97], .bulk [98]] := by
  with_unfolding_all rfl

def listPieces : List Bytes := [.ofString "*2\r", .ofString "\n$1\r\na\r\n$1", .ofString "\r\nb\r\n"]

theorem replies_delivered_wholeList :
    ({} : Decoder).receive listPieces = ⟨[.array [.bulk [97], .bulk [98]]], none, {}⟩ ∧
      (execute (grown 1).now (grown 1).keyspace wholeList).1.Made fun b => b.length ≤ ({} : Limits).bulk := by
  have haccepted : wholeList.Accepted {} := ⟨[.ofString "LRANGE l 0 -1\r\n"], by decide +kernel⟩
  obtain ⟨hdelivered, hmade⟩ := replies_delivered {} .zero (List.replicate 1 (.request pushTwo)) haccepted
  have hargs : ∀ q, .request q ∈ List.replicate 1 (Event.request pushTwo) ∨ q = wholeList →
      ∀ b ∈ q.args, b.length ≤ ({} : Limits).bulk := by
    rintro q (hq | rfl)
    · obtain rfl := Event.request.inj (List.eq_of_mem_replicate hq)
      decide +kernel
    · decide +kernel
  have hone : Numeral.Readable 1 := by decide +kernel
  have hallowed : (Reply.array [.bulk [97], .bulk [98]]).Allowed {} := by
    refine .array (by decide) (by decide +kernel) ?_
    simp only [List.forall_mem_cons, List.not_mem_nil, false_implies, implies_true, and_true]
    exact ⟨.bulk (by decide) hone, .bulk (by decide) hone⟩
  have hlines : (Reply.array [.bulk [97], .bulk [98]]).ShortLined {} := by
    refine .array (by decide +kernel) ?_
    simp only [List.forall_mem_cons, List.not_mem_nil, false_implies, implies_true, and_true]
    exact ⟨.bulk (by decide +kernel), .bulk (by decide +kernel)⟩
  have hlist : (Reply.array [.bulk [97], .bulk [98]]).Delivered {} := execute_wholeList ▸ hdelivered
  exact ⟨hlist.whole hallowed hlines listPieces (by decide +kernel), hmade (by decide) hargs⟩

/-- Under a limit of four items to an array both requests are accepted, and a reply of six is not. -/
theorem grown_undelivered :
    pushTwo.Accepted { array := 4 } ∧ wholeList.Accepted { array := 4 } ∧
      (({ limits := { array := 4 } } : Decoder).receive
        [(execute (grown 3).now (grown 3).keyspace wholeList).1.toBytes]).replies = [] ∧
      (({ limits := { array := 4 } } : Decoder).receive
        [(execute (grown 3).now (grown 3).keyspace wholeList).1.toBytes]).fault =
          some (.protocol .multibulkLength) := by
  have hpush : pushTwo.Accepted { array := 4 } :=
    ⟨[.ofString "*4\r\n$5\r\nRPUSH\r\n$1\r\nl\r\n$1\r\na\r\n$1\r\nb\r\n"], by decide +kernel⟩
  have hwhole : wholeList.Accepted { array := 4 } :=
    ⟨[.ofString "*4\r\n$6\r\nLRANGE\r\n$1\r\nl\r\n$1\r\n0\r\n$2\r\n-1\r\n"], by decide +kernel⟩
  exact ⟨hpush, hwhole, List.isEmpty_iff.mp (by decide +kernel), by decide +kernel⟩

end Moment

end RespStore
