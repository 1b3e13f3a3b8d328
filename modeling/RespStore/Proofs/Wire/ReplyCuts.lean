import RespStore.Proofs.Wire.Cuts
import RespStore.Proofs.Wire.SteadyReply

/-! A stream of replies means the same however it is cut. A reply is taken off only when all of it is there, so a
decoder that has come through some pieces without a fault has come as far as if it had been fed them at once. -/

namespace RespStore.Wire

namespace Reader

variable {α β : Type} {r : Reader α} {f : α → Reader β} {e : DecodeError}

def Avoids (e : DecodeError) (r : Reader α) : Prop := ∀ b, r b ≠ .fault e

theorem avoids_give (a : α) : (give a).Avoids e := by
  intro b h
  cases h

theorem avoids_fail {g : ProtocolFault} (hg : .protocol g ≠ e) : (fail g : Reader α).Avoids e := by
  intro b h
  exact hg (Progress.fault.inj h)

theorem Avoids.andThen (hr : r.Avoids e) (hf : ∀ a, (f a).Avoids e) : (r.andThen f).Avoids e := by
  intro b h
  unfold Reader.andThen at h
  cases hb : r b with
  | more =>
    rw [hb] at h
    cases h
  | fault e' =>
    rw [hb] at h
    obtain rfl := Progress.fault.inj h
    exact hr b hb
  | done a t =>
    rw [hb] at h
    exact hf a t h

end Reader

open Reader

section Headers

variable {limits : Limits}

abbrev HeadersOnly {α : Type} (r : Reader α) : Prop := r.Avoids (.protocol .inlineTooBig)

theorem line_headersOnly : HeadersOnly (line limits) := by
  intro b h
  unfold line at h
  split at h
  · cases h
  · split at h <;> cases h

theorem numeral_headersOnly {bad : ProtocolFault} (hbad : bad ≠ .inlineTooBig) (ds : Bytes) :
    HeadersOnly (numeral bad ds) := by
  intro b h
  unfold numeral at h
  split at h
  · cases h
  · exact hbad (DecodeError.protocol.inj (Progress.fault.inj h))
  · cases h

theorem body_headersOnly (n : Nat) : HeadersOnly (body n) := by
  intro b h
  unfold body at h
  split at h
  · split at h <;> cases h
  · cases h

theorem bulkHead_headersOnly (n : Int) : HeadersOnly (bulkHead limits n) := by
  unfold bulkHead
  split
  · exact avoids_give _
  split
  · exact avoids_fail (by decide)
  · exact (body_headersOnly _).andThen fun data => avoids_give _

theorem arrayHead_headersOnly (n : Int) : HeadersOnly (arrayHead limits n) := by
  unfold arrayHead
  split
  · exact avoids_give _
  split
  · exact avoids_fail (by decide)
  split
  · exact avoids_give _
  · exact avoids_give _

theorem headOfLine_headersOnly (mark : UInt8) (l : Bytes) : HeadersOnly (headOfLine limits mark l) := by
  unfold headOfLine
  split
  · exact avoids_give _
  split
  · exact avoids_give _
  split
  · exact (numeral_headersOnly (by decide) l).andThen fun n => avoids_give _
  split
  · exact (numeral_headersOnly (by decide) l).andThen bulkHead_headersOnly
  split
  · exact (numeral_headersOnly (by decide) l).andThen arrayHead_headersOnly
  · exact avoids_fail (by simp)

theorem head_headersOnly : HeadersOnly (head limits) := by
  intro b
  cases b with
  | nil => exact fun h => by cases h
  | cons mark r => exact line_headersOnly.andThen (headOfLine_headersOnly mark) r

theorem replyWithin_headersOnly (frames : List Frame) : HeadersOnly (replyWithin limits frames) := by
  intro b h
  fun_induction replyWithin limits frames b with
  | case1 => cases h
  | case2 frames b e hd =>
    obtain rfl := Progress.fault.inj h
    exact head_headersOnly b hd
  | case3 frames b n rest hd ih => exact ih h
  | case4 => cases h
  | case5 frames b r rest hd fs hs ih => exact ih h

theorem isTooBig_of_reply {b : Bytes} {e : DecodeError} (h : reply limits b = .fault e)
    (he : e ≠ .protocol .headerTooBig) : e.isTooBig = false := by
  have hinline : e ≠ .protocol .inlineTooBig := by
    rintro rfl
    exact replyWithin_headersOnly [] b h
  unfold DecodeError.isTooBig
  split
  · exact absurd rfl hinline
  · exact absurd rfl he
  · rfl

theorem replyWithin_shortens (frames : List Frame) : Reader.Shortens (replyWithin limits frames) := by
  intro b r rest h
  fun_induction replyWithin limits frames b with
  | case1 => cases h
  | case2 => cases h
  | case3 frames b n rest' hd ih => exact Nat.lt_trans (ih h) (head_shortens limits hd)
  | case4 frames b r' rest' hd whole hs =>
    obtain ⟨-, rfl⟩ := Progress.done.inj h
    exact head_shortens limits hd
  | case5 frames b r' rest' hd fs hs ih => exact Nat.lt_trans (ih h) (head_shortens limits hd)

end Headers

structure Reception where
  replies : List Reply
  fault : Option DecodeError
  decoder : Decoder

namespace Reception

def after (rs : List Reply) (x : Reception) : Reception := { x with replies := rs ++ x.replies }

theorem after_after (rs ss : List Reply) (x : Reception) : (x.after ss).after rs = x.after (rs ++ ss) := by
  simp only [after, List.append_assoc]

/-- The same replies and the same end; after a fault nobody looks at the decoder again. -/
structure Agrees (x y : Reception) : Prop where
  replies : x.replies = y.replies
  fault : x.fault = y.fault
  decoder : x.fault = none → x.decoder = y.decoder

theorem Agrees.symm {x y : Reception} (h : x.Agrees y) : y.Agrees x :=
  ⟨h.replies.symm, h.fault.symm, fun hy => (h.decoder (h.fault.trans hy)).symm⟩

theorem Agrees.trans {x y z : Reception} (h : x.Agrees y) (h' : y.Agrees z) : x.Agrees z :=
  ⟨h.replies.trans h'.replies, h.fault.trans h'.fault,
    fun hx => (h.decoder hx).trans (h'.decoder (h.fault.symm.trans hx))⟩

end Reception

namespace Decoder

variable {d e : Decoder} {r : Reply} {f : DecodeError}

theorem nextReply_found_iff : d.nextReply = (.ok (some r), e) ↔
    ∃ rest, reply d.limits d.buffer = .done r rest ∧ e = { d with buffer := rest } := by
  unfold nextReply
  cases reply d.limits d.buffer with
  | more => simp
  | fault g => simp
  | done q rest =>
    simp only [Prod.mk.injEq, Except.ok.injEq, Option.some.injEq, Progress.done.injEq]
    constructor
    · rintro ⟨rfl, rfl⟩
      exact ⟨rest, ⟨rfl, rfl⟩, rfl⟩
    · rintro ⟨_, ⟨rfl, rfl⟩, rfl⟩
      exact ⟨rfl, rfl⟩

theorem nextReply_error_iff : d.nextReply = (.error f, e) ↔ reply d.limits d.buffer = .fault f ∧ e = d := by
  unfold nextReply
  cases reply d.limits d.buffer with
  | more => simp
  | fault g => simp [eq_comm]
  | done q rest => simp

theorem nextReply_none_iff : d.nextReply = (.ok none, e) ↔ reply d.limits d.buffer = .more ∧ e = d := by
  unfold nextReply
  cases reply d.limits d.buffer with
  | more => simp [eq_comm]
  | fault g => simp
  | done q rest => simp

theorem nextReply_of_not_found (h : ∀ r, d.nextReply.1 ≠ .ok (some r)) : d.nextReply.2 = d := by
  rcases hx : d.nextReply with ⟨x, e⟩
  rcases x with f | _ | r
  · exact (nextReply_error_iff.mp hx).2
  · exact (nextReply_none_iff.mp hx).2
  · exact absurd (congrArg Prod.fst hx) (h r)

theorem length_of_nextReply (h : d.nextReply = (.ok (some r), e)) : e.buffer.length < d.buffer.length := by
  obtain ⟨rest, hr, rfl⟩ := nextReply_found_iff.mp h
  exact replyWithin_shortens [] hr

theorem nextReply_feed_of_found (h : d.nextReply = (.ok (some r), e)) (x : Bytes) :
    (d.feed x).nextReply = (.ok (some r), e.feed x) := by
  obtain ⟨rest, hr, rfl⟩ := nextReply_found_iff.mp h
  exact nextReply_found_iff.mpr ⟨rest ++ x, (reply_steady d.limits).done hr x, rfl⟩

theorem nextReply_feed_of_error (h : d.nextReply = (.error f, e)) (hf : f ≠ .protocol .headerTooBig) (x : Bytes) :
    (d.feed x).nextReply = (.error f, d.feed x) := by
  obtain ⟨hr, -⟩ := nextReply_error_iff.mp h
  exact nextReply_error_iff.mpr ⟨(reply_steady d.limits).fault hr (isTooBig_of_reply hr hf) x, rfl⟩

def drainReplies (d : Decoder) : Reception :=
  match _h : d.nextReply with
  | (.error f, d) => ⟨[], some f, d⟩
  | (.ok none, d) => ⟨[], none, d⟩
  | (.ok (some r), d) => (drainReplies d).after [r]
termination_by d.buffer.length
decreasing_by exact length_of_nextReply _h

def receive (d : Decoder) : List Bytes → Reception
  | [] => ⟨[], none, d⟩
  | c :: cs =>
    let x := (d.feed c).drainReplies
    if x.fault.isSome then x else (x.decoder.receive cs).after x.replies

theorem drainReplies_of_error (h : d.nextReply = (.error f, e)) : d.drainReplies = ⟨[], some f, e⟩ := by
  rw [drainReplies]
  split <;> simp_all

theorem drainReplies_of_none (h : d.nextReply = (.ok none, e)) : d.drainReplies = ⟨[], none, e⟩ := by
  rw [drainReplies]
  split <;> simp_all

theorem drainReplies_of_found (h : d.nextReply = (.ok (some r), e)) : d.drainReplies = e.drainReplies.after [r] := by
  rw [drainReplies]
  split <;> simp_all

theorem drainReplies_feed_of_none (h : d.drainReplies.fault = none) (x : Bytes) :
    (d.feed x).drainReplies = (d.drainReplies.decoder.feed x).drainReplies.after d.drainReplies.replies := by
  fun_induction drainReplies d with
  | case1 => cases h
  | case2 d e hn =>
    obtain ⟨-, rfl⟩ := nextReply_none_iff.mp hn
    rfl
  | case3 d r e hn ih =>
    rw [drainReplies_of_found (nextReply_feed_of_found hn x), ih h, Reception.after_after]
    rfl

theorem drainReplies_feed_of_some (h : d.drainReplies.fault = some f) (hf : f ≠ .protocol .headerTooBig) (x : Bytes) :
    (d.feed x).drainReplies.replies = d.drainReplies.replies ∧ (d.feed x).drainReplies.fault = some f := by
  fun_induction drainReplies d with
  | case1 d f' e hn =>
    obtain rfl := Option.some.inj h
    rw [drainReplies_of_error (nextReply_feed_of_error hn hf x)]
    exact ⟨rfl, rfl⟩
  | case2 => cases h
  | case3 d r e hn ih =>
    obtain ⟨hr, hx⟩ := ih h
    rw [drainReplies_of_found (nextReply_feed_of_found hn x)]
    exact ⟨congrArg (r :: ·) hr, hx⟩

theorem receive_cons_of_none {c : Bytes} (h : (d.feed c).drainReplies.fault = none) (cs : List Bytes) :
    d.receive (c :: cs) = ((d.feed c).drainReplies.decoder.receive cs).after (d.feed c).drainReplies.replies := by
  rw [receive, h]
  rfl

theorem receive_cons_of_some {c : Bytes} (h : (d.feed c).drainReplies.fault = some f) (cs : List Bytes) :
    d.receive (c :: cs) = (d.feed c).drainReplies := by
  rw [receive, h]
  rfl

theorem receive_cons_cons {p : Bytes} (h : (d.feed p).drainReplies.fault = none) (c : Bytes) (cs : List Bytes) :
    d.receive (p :: c :: cs) = d.receive ((p ++ c) :: cs) := by
  have hjoined := drainReplies_feed_of_none h c
  rw [feed_feed] at hjoined
  rw [receive_cons_of_none h]
  cases hf : ((d.feed p).drainReplies.decoder.feed c).drainReplies.fault with
  | none =>
    have hnone : (d.feed (p ++ c)).drainReplies.fault = none := by rw [hjoined]; exact hf
    rw [receive_cons_of_none hf, receive_cons_of_none hnone, hjoined, Reception.after_after]
    rfl
  | some f =>
    have hsome : (d.feed (p ++ c)).drainReplies.fault = some f := by rw [hjoined]; exact hf
    rw [receive_cons_of_some hf, receive_cons_of_some hsome, hjoined]

theorem receive_eq_drainReplies (p : Bytes) (cs : List Bytes) :
    ∃ q, q <+: p ++ cs.flatten ∧ d.receive (p :: cs) = (d.feed q).drainReplies ∧
      ((d.feed q).drainReplies.fault = none → q = p ++ cs.flatten) := by
  induction cs generalizing p with
  | nil =>
    refine ⟨p, by simp, ?_, fun _ => by simp⟩
    cases hf : (d.feed p).drainReplies.fault with
    | none =>
      rw [receive_cons_of_none hf]
      simp [receive, Reception.after, ← hf]
    | some f => exact receive_cons_of_some hf []
  | cons c cs ih =>
    cases hf : (d.feed p).drainReplies.fault with
    | none =>
      obtain ⟨q, hq, hreceive, hwhole⟩ := ih (p ++ c)
      rw [List.append_assoc] at hq hwhole
      exact ⟨q, hq, (receive_cons_cons hf c cs).trans hreceive, hwhole⟩
    | some f =>
      refine ⟨p, List.prefix_append _ _, receive_cons_of_some hf _, fun h => ?_⟩
      rw [hf] at h
      cases h

theorem nextReply_fresh (limits : Limits) : ({ limits } : Decoder).nextReply = (.ok none, { limits }) := by
  have hmore : reply limits [] = .more := by rw [reply, replyWithin_eq, head]
  exact nextReply_none_iff.mpr ⟨hmore, rfl⟩

theorem receive_nil_cons (limits : Limits) (cs : List Bytes) :
    ({ limits } : Decoder).receive ([] :: cs) = ({ limits } : Decoder).receive cs := by
  have hdrain : (({ limits } : Decoder).feed []).drainReplies = ⟨[], none, { limits }⟩ := by
    rw [feed_nil]
    exact drainReplies_of_none (nextReply_fresh limits)
  rw [receive, hdrain]
  rfl

theorem receive_agrees (limits : Limits) {cs : List Bytes}
    (h : (({ limits } : Decoder).receive cs).fault ≠ some (.protocol .headerTooBig)) :
    (({ limits } : Decoder).receive cs).Agrees (({ limits } : Decoder).feed cs.flatten).drainReplies := by
  obtain ⟨q, ⟨x, hx⟩, hreceive, hwhole⟩ := receive_eq_drainReplies (d := { limits }) [] cs
  rw [List.nil_append] at hx hwhole
  rw [receive_nil_cons] at hreceive
  rw [hreceive] at h ⊢
  cases hf : (({ limits } : Decoder).feed q).drainReplies.fault with
  | none =>
    rw [hwhole hf]
    exact ⟨rfl, rfl, fun _ => rfl⟩
  | some f =>
    have hheader : f ≠ .protocol .headerTooBig := by
      rintro rfl
      exact h hf
    obtain ⟨hreplies, hfault⟩ := drainReplies_feed_of_some hf hheader x
    rw [feed_feed, hx] at hreplies hfault
    exact ⟨hreplies.symm, hf.trans hfault.symm, fun hn => by rw [hf] at hn; cases hn⟩

/-- Any two cuts of one stream give the same replies, unless one of them makes a header line look too long; and
asking in vain takes nothing off. -/
theorem receive_of_flatten_eq (limits : Limits) {cs ds : List Bytes} (h : cs.flatten = ds.flatten)
    (hc : (({ limits } : Decoder).receive cs).fault ≠ some (.protocol .headerTooBig))
    (hd : (({ limits } : Decoder).receive ds).fault ≠ some (.protocol .headerTooBig)) :
    (({ limits } : Decoder).receive cs).Agrees (({ limits } : Decoder).receive ds) ∧
      ∀ d : Decoder, (∀ r, d.nextReply.1 ≠ .ok (some r)) → d.nextReply.2 = d := by
  have hcs := receive_agrees limits hc
  have hds := receive_agrees limits hd
  rw [h] at hcs
  exact ⟨hcs.trans hds.symm, fun _ => nextReply_of_not_found⟩

def nestedPieces : List Bytes :=
  [.ofString "*2\r\n*1\r\n:7\r", .ofString "\n$2\r\na", .ofString "b\r\n+O", .ofString "K\r\n:x\r\n+no"]

theorem receive_of_flatten_eq_nested :
    (({} : Decoder).receive nestedPieces).Agrees (({} : Decoder).receive [nestedPieces.flatten]) ∧
      ∀ d : Decoder, (∀ r, d.nextReply.1 ≠ .ok (some r)) → d.nextReply.2 = d :=
  receive_of_flatten_eq {} (by simp) (by decide +kernel) (by decide +kernel)

end Decoder

end RespStore.Wire
