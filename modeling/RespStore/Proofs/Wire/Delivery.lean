import RespStore.Proofs.Wire.ReplyCuts
import RespStore.Proofs.Wire.Verdict

/-! A reply's bytes arriving in pieces. A reply within the limits comes out once, when its last byte is there; one that
has a bulk, an array or a number beyond them ends the reading; and no reply's bytes give anything but that reply. -/

namespace RespStore

open Wire (Decoder Limits Reception Refuses)

namespace Reply

/-- Has no bulk and no array beyond the limits, and no number too long to be read. -/
inductive Allowed (limits : Limits) : Reply → Prop
  | status (t : Text) : Allowed limits (.status t)
  | error (t : Text) : Allowed limits (.error t)
  | integer {n : Int} (hn : Numeral.Readable n.natAbs) : Allowed limits (.integer n)
  | bulk {data : Bytes} (hl : data.length ≤ limits.bulk) (hn : Numeral.Readable data.length) :
    Allowed limits (.bulk data)
  | null : Allowed limits .null
  | array {items : List Reply} (hl : items.length ≤ limits.array) (hn : Numeral.Readable items.length)
    (hi : ∀ r ∈ items, Allowed limits r) : Allowed limits (.array items)

variable {limits : Limits} {Q : Bytes → Prop} {r : Reply}

theorem Sendable.allowed (h : r.Sendable limits) : r.Allowed limits := by
  induction h with
  | status => exact .status _
  | error => exact .error _
  | integer hn => exact .integer hn
  | bulk hl hn => exact .bulk hl hn
  | null => exact .null
  | array hl hn _ ih => exact .array hl hn ih

theorem Allowed.sendable (h : r.Allowed limits) (hr : r.Made Q) : r.Sendable limits := by
  induction h with
  | status =>
    cases hr with
    | status ht => exact .status ht
  | error =>
    cases hr with
    | error ht => exact .error ht
  | integer hn => exact .integer hn
  | bulk hl hn => exact .bulk hl hn
  | null => exact .null
  | array hl hn _ ih =>
    cases hr with
    | array hi => exact .array hl hn fun x hx => ih x hx (hi x hx)

/-- What becomes of a reply's bytes in any pieces: within the limits the reply is read and nothing is left, beyond them
the reading ends without it, and nothing else is ever read. -/
structure Delivered (limits : Limits) (r : Reply) : Prop where
  whole : r.Allowed limits → r.ShortLined limits → ∀ cs : List Bytes, cs.flatten = r.toBytes →
    ({ limits } : Decoder).receive cs = ⟨[r.received], none, { limits }⟩
  refused : ¬r.Allowed limits → ∀ cs : List Bytes, cs.flatten = r.toBytes →
    (({ limits } : Decoder).receive cs).replies = [] ∧ (({ limits } : Decoder).receive cs).fault ≠ none
  nothingElse : ∀ cs : List Bytes, cs.flatten = r.toBytes →
    (({ limits } : Decoder).receive cs).replies <+: [r.received]

end Reply

namespace Wire.Decoder

variable {limits : Limits} {Q : Bytes → Prop} {r : Reply}

theorem receive_eq_prefix (limits : Limits) (cs : List Bytes) :
    ∃ p, p <+: cs.flatten ∧ ({ limits } : Decoder).receive cs = (({ limits } : Decoder).feed p).drainReplies ∧
      ((({ limits } : Decoder).feed p).drainReplies.fault = none → p = cs.flatten) := by
  have hreceive := receive_eq_drainReplies (d := { limits }) [] cs
  rwa [receive_nil_cons, List.nil_append] at hreceive

theorem drainReplies_toBytes (hr : r.Sendable limits) :
    (({ limits } : Decoder).feed r.toBytes).drainReplies = ⟨[r.received], none, { limits }⟩ := by
  have hfound := nextReply_toBytes hr []
  rw [List.append_nil, feed_nil] at hfound
  rw [drainReplies_of_found hfound, drainReplies_of_none (nextReply_fresh limits)]
  rfl

theorem drainReplies_of_broken (hr : r.Made Q) {p : Bytes} (hp : p <+: r.toBytes) (hne : p ≠ r.toBytes) :
    (({ limits } : Decoder).feed p).drainReplies.replies = [] := by
  obtain ⟨x, hx⟩ := hp
  rcases hn : (({ limits } : Decoder).feed p).nextReply with ⟨y, e⟩
  rcases y with f | _ | q
  · rw [drainReplies_of_error hn]
  · rw [drainReplies_of_none hn]
  · obtain ⟨rest, hq, -⟩ := nextReply_found_iff.mp hn
    have hwhole : p ++ x = r.toBytes ++ [] := by rw [hx, List.append_nil]
    obtain ⟨-, hnil⟩ := eq_of_reply hr hq hwhole
    have hx0 : x = [] := (List.append_eq_nil_iff.mp hnil).2
    rw [hx0, List.append_nil] at hx
    exact absurd hx hne

theorem drainReplies_of_refuses (h : Refuses limits r) :
    (({ limits } : Decoder).feed r.toBytes).drainReplies.replies = [] ∧
      (({ limits } : Decoder).feed r.toBytes).drainReplies.fault ≠ none := by
  obtain ⟨e, he⟩ := h [] []
  rw [List.append_nil] at he
  have hfault : (({ limits } : Decoder).feed r.toBytes).nextReply = (.error e, ({ limits } : Decoder).feed r.toBytes) :=
    nextReply_error_iff.mpr ⟨he, rfl⟩
  rw [drainReplies_of_error hfault]
  exact ⟨rfl, Option.some_ne_none e⟩

theorem receive_toBytes (hr : r.Sendable limits) (hl : r.ShortLined limits) {cs : List Bytes}
    (hcs : cs.flatten = r.toBytes) : ({ limits } : Decoder).receive cs = ⟨[r.received], none, { limits }⟩ := by
  obtain ⟨p, hp, hreceive, hwhole⟩ := receive_eq_prefix limits cs
  rw [hcs] at hp hwhole
  rw [hreceive]
  by_cases hne : p = r.toBytes
  · rw [hne]
    exact drainReplies_toBytes hr
  · have hnone := drainReplies_of_none (nextReply_of_broken hr hl hp hne)
    rw [hnone] at hwhole
    exact absurd (hwhole rfl) hne

theorem delivered (limits : Limits) (hr : r.Made Q) : r.Delivered limits := by
  refine ⟨fun ha hl cs hcs => receive_toBytes (ha.sendable hr) hl hcs, fun hnot cs hcs => ?_, fun cs hcs => ?_⟩
  · have hrefuses : Refuses limits r := (sendable_or_refuses hr).resolve_left fun hs => hnot hs.allowed
    obtain ⟨p, hp, hreceive, hwhole⟩ := receive_eq_prefix limits cs
    rw [hcs] at hp hwhole
    rw [hreceive]
    by_cases hne : p = r.toBytes
    · rw [hne]
      exact drainReplies_of_refuses hrefuses
    · exact ⟨drainReplies_of_broken hr hp hne, fun hnone => hne (hwhole hnone)⟩
  · obtain ⟨p, hp, hreceive, -⟩ := receive_eq_prefix limits cs
    rw [hcs] at hp
    rw [hreceive]
    by_cases hne : p = r.toBytes
    · rw [hne]
      rcases sendable_or_refuses hr with hs | hrefuses
      · exact ⟨[], by rw [List.append_nil, drainReplies_toBytes hs]⟩
      · rw [(drainReplies_of_refuses hrefuses).1]
        exact List.nil_prefix
    · rw [drainReplies_of_broken hr hp hne]
      exact List.nil_prefix

end Wire.Decoder

end RespStore
