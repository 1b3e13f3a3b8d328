import RespStore.Proofs.Wire.Scan
import RespStore.Server.Exchange

/-! A stream of requests means the same however it is cut. Draining a decoder takes off every request that is
there; bytes fed later go on from the decoder that is left, so all cuts agree with the uncut stream. -/

namespace RespStore.Wire

structure Decoding where
  requests : List Request
  fault : Option DecodeError
  decoder : Decoder

namespace Decoding

def after (rs : List Request) (x : Decoding) : Decoding := { x with requests := rs ++ x.requests }

@[simp] theorem after_requests (rs : List Request) (x : Decoding) :
    (x.after rs).requests = rs ++ x.requests := rfl

@[simp] theorem after_fault (rs : List Request) (x : Decoding) : (x.after rs).fault = x.fault := rfl

theorem after_after (rs ss : List Request) (x : Decoding) :
    (x.after ss).after rs = x.after (rs ++ ss) := by
  simp only [after, List.append_assoc]

/-- The same requests and the same end; after a fault nobody looks at the decoder again. -/
structure Agrees (x y : Decoding) : Prop where
  requests : x.requests = y.requests
  fault : x.fault = y.fault
  decoder : x.fault = none → x.decoder = y.decoder

theorem Agrees.symm {x y : Decoding} (h : x.Agrees y) : y.Agrees x :=
  ⟨h.requests.symm, h.fault.symm, fun hy => (h.decoder (h.fault.trans hy)).symm⟩

theorem Agrees.trans {x y z : Decoding} (h : x.Agrees y) (h' : y.Agrees z) : x.Agrees z :=
  ⟨h.requests.trans h'.requests, h.fault.trans h'.fault,
    fun hx => (h.decoder hx).trans (h'.decoder (h.fault.symm.trans hx))⟩

theorem Agrees.after {x y : Decoding} (h : x.Agrees y) (rs : List Request) :
    (x.after rs).Agrees (y.after rs) :=
  ⟨congrArg (rs ++ ·) h.requests, h.fault, h.decoder⟩

def isTooBig (x : Decoding) : Bool := x.fault.any (·.isTooBig)

end Decoding

namespace Decoder

def drain (d : Decoder) : Decoding :=
  match _h : d.next with
  | (.error e, d) => ⟨[], some e, d⟩
  | (.ok none, d) => ⟨[], none, d⟩
  | (.ok (some r), d) => (drain d).after [r]
termination_by Exchange.work d
decreasing_by exact Exchange.work_next _h

/-- Feeds pieces one by one and drains after each, up to the first fault. -/
def decode (d : Decoder) : List Bytes → Decoding
  | [] => ⟨[], none, d⟩
  | c :: cs =>
    let x := (d.feed c).drain
    if x.fault.isSome then x else (x.decoder.decode cs).after x.requests

variable {d e : Decoder} {r : Request} {f : DecodeError}

theorem drain_of_error (h : d.next = (.error f, e)) : d.drain = ⟨[], some f, e⟩ := by
  rw [drain]
  split <;> simp_all

theorem drain_of_none (h : d.next = (.ok none, e)) : d.drain = ⟨[], none, e⟩ := by
  rw [drain]
  split <;> simp_all

theorem drain_of_found (h : d.next = (.ok (some r), e)) : d.drain = e.drain.after [r] := by
  rw [drain]
  split <;> simp_all

theorem drain_congr (h : d.next = e.next) : d.drain = e.drain := by
  rcases hx : e.next with ⟨x, c⟩
  rcases x with f | _ | r
  · rw [drain_of_error (h.trans hx), drain_of_error hx]
  · rw [drain_of_none (h.trans hx), drain_of_none hx]
  · rw [drain_of_found (h.trans hx), drain_of_found hx]

@[simp] theorem feed_nil : d.feed [] = d := by simp [feed]

theorem feed_feed (b x : Bytes) : (d.feed b).feed x = d.feed (b ++ x) := by simp [feed]

theorem next_feed_of_found (h : d.next = (.ok (some r), e)) (x : Bytes) :
    (d.feed x).next = (.ok (some r), e.feed x) := by
  have ht := scan_then d.limits x d.buffer d.draft
  simp only [next, Prod.mk.injEq] at h
  obtain ⟨hf, rfl⟩ := h
  rw [Scan.Then, hf] at ht
  simp only [next, feed, ht]

theorem next_feed_of_none (h : d.next = (.ok none, e)) (x : Bytes) :
    (d.feed x).next = (e.feed x).next := by
  have ht := scan_then d.limits x d.buffer d.draft
  simp only [next, Prod.mk.injEq] at h
  obtain ⟨hf, rfl⟩ := h
  rw [Scan.Then, hf] at ht
  simp only [next, feed, ht]

theorem next_feed_of_error (h : d.next = (.error f, e)) (hf : f.isTooBig = false) (x : Bytes) :
    (d.feed x).next.1 = .error f := by
  have ht := scan_then d.limits x d.buffer d.draft
  simp only [next, Prod.mk.injEq] at h
  rw [Scan.Then, h.1] at ht
  exact ht hf

theorem next_of_none (h : d.next = (.ok none, e)) : e.next = (.ok none, e) := by
  have hx : (d.feed []).next = (e.feed []).next := next_feed_of_none h []
  rw [feed_nil, feed_nil, h] at hx
  exact hx.symm

theorem next_drain (h : d.drain.fault = none) : d.drain.decoder.next = (.ok none, d.drain.decoder) := by
  fun_induction drain d with
  | case1 => simp at h
  | case2 d e hn => exact next_of_none hn
  | case3 d r e hn ih => exact ih h

theorem drain_feed_of_none (h : d.drain.fault = none) (x : Bytes) :
    (d.feed x).drain = (d.drain.decoder.feed x).drain.after d.drain.requests := by
  fun_induction drain d with
  | case1 => simp at h
  | case2 d e hn =>
    have hx : (d.feed x).drain = (e.feed x).drain := drain_congr (next_feed_of_none hn x)
    rw [hx]
    rfl
  | case3 d r e hn ih =>
    rw [drain_of_found (next_feed_of_found hn x), ih h, Decoding.after_after]
    rfl

theorem drain_feed_of_some (h : d.drain.fault = some f) (hf : f.isTooBig = false) (x : Bytes) :
    (d.feed x).drain.requests = d.drain.requests ∧ (d.feed x).drain.fault = some f := by
  fun_induction drain d with
  | case1 d f' e hn =>
    obtain rfl := Option.some.inj h
    have hx := next_feed_of_error hn hf x
    cases hd : (d.feed x).next with
    | mk y e' =>
      rw [hd] at hx
      obtain rfl : y = .error f' := hx
      rw [drain_of_error hd]
      exact ⟨rfl, rfl⟩
  | case2 d e hn => simp at h
  | case3 d r e hn ih =>
    obtain ⟨hr, hx⟩ := ih h
    rw [drain_of_found (next_feed_of_found hn x)]
    exact ⟨congrArg (r :: ·) hr, hx⟩

theorem decode_cons_of_none {c : Bytes} (h : (d.feed c).drain.fault = none) (cs : List Bytes) :
    d.decode (c :: cs) = ((d.feed c).drain.decoder.decode cs).after (d.feed c).drain.requests := by
  rw [decode, h]
  rfl

theorem decode_cons_of_some {c : Bytes} (h : (d.feed c).drain.fault = some f) (cs : List Bytes) :
    d.decode (c :: cs) = (d.feed c).drain := by
  rw [decode, h]
  rfl

theorem decode_cons_of_drain {p v : Bytes} {rs : List Request} (h : (d.feed p).drain = (e.feed v).drain.after rs)
    (cs : List Bytes) : d.decode (p :: cs) = (e.decode (v :: cs)).after rs := by
  cases hf : (e.feed v).drain.fault with
  | none =>
    have hp : (d.feed p).drain.fault = none := by rw [h]; exact hf
    rw [decode_cons_of_none hp, decode_cons_of_none hf, h, Decoding.after_after]
    rfl
  | some f =>
    have hp : (d.feed p).drain.fault = some f := by rw [h]; exact hf
    rw [decode_cons_of_some hp, decode_cons_of_some hf, h]

theorem decode_cons_cons {p : Bytes} (h : (d.feed p).drain.fault = none) (c : Bytes) (cs : List Bytes) :
    d.decode (p :: c :: cs) = d.decode ((p ++ c) :: cs) := by
  have hjoined := drain_feed_of_none h c
  rw [feed_feed] at hjoined
  rw [decode_cons_of_none h, decode_cons_of_drain hjoined]

theorem decode_agrees {cs : List Bytes} (hd : d.next = (.ok none, d))
    (h : (d.decode cs).isTooBig = false) : (d.decode cs).Agrees (d.feed cs.flatten).drain := by
  -- What a piece leaves without a fault is again a decoder that waits.
  induction cs generalizing d with
  | nil =>
    rw [List.flatten_nil, feed_nil, drain_of_none hd]
    exact ⟨rfl, rfl, fun _ => rfl⟩
  | cons c cs ih =>
    rw [List.flatten_cons, ← feed_feed]
    cases hf : (d.feed c).drain.fault with
    | none =>
      rw [decode_cons_of_none hf] at h ⊢
      rw [drain_feed_of_none hf]
      exact (ih (next_drain hf) h).after _
    | some f =>
      rw [decode_cons_of_some hf] at h ⊢
      have htoo : f.isTooBig = false := by
        rw [Decoding.isTooBig, hf] at h
        exact h
      obtain ⟨hr, hx⟩ := drain_feed_of_some hf htoo cs.flatten
      exact ⟨hr.symm, hf.trans hx.symm, fun hn => by simp [hf] at hn⟩

theorem next_fresh (limits : Limits) : ({ limits } : Decoder).next = (.ok none, { limits }) := by
  simp [next, scan, seek_eq, opening]

/-- Any two cuts of one stream are decoded alike, unless one of them makes a line look too long. -/
theorem decode_of_flatten_eq (limits : Limits) {cs ds : List Bytes} (h : cs.flatten = ds.flatten)
    (hc : (({ limits } : Decoder).decode cs).isTooBig = false)
    (hd : (({ limits } : Decoder).decode ds).isTooBig = false) :
    (({ limits } : Decoder).decode cs).Agrees (({ limits } : Decoder).decode ds) := by
  have hcs := decode_agrees (next_fresh limits) hc
  have hds := decode_agrees (next_fresh limits) hd
  rw [h] at hcs
  exact hcs.trans hds.symm

def echoPieces : List Bytes :=
  [.ofString "*2\r\n$4\r", .ofString "\nECHO\r\n$", .ofString "3\r\na\r\n\r\n\n", .ofString "PI"]

theorem decode_of_flatten_eq_echo :
    (({} : Decoder).decode echoPieces).Agrees (({} : Decoder).decode [echoPieces.flatten]) :=
  decode_of_flatten_eq {} (by simp) (by decide +kernel) (by decide +kernel)

end Decoder

end RespStore.Wire
