import RespStore.Proofs.Wire.Cuts

/-! One read and the history it adds to: the requests drained from the bytes, up to the first that takes
leave, are executed one after another, and the read ends the way the draining ended. -/

namespace RespStore

def upToQuit : List Request → List Request
  | [] => []
  | r :: rs => if r.isQuit then [r] else r :: upToQuit rs

inductive Action where
  | execute (id : Nat) (now : Instant) (r : Request)
  | sweep (now : Instant)

structure Answered where
  id : Nat
  request : Request
  reply : Reply

def Keyspace.play : Keyspace → List Action → List Answered × Keyspace
  | s, [] => ([], s)
  | s, .execute id now r :: as =>
    let x := execute now s r
    let y := play x.2 as
    (⟨id, r, x.1⟩ :: y.1, y.2)
  | s, .sweep now :: as => play (s.sweep now).2 as

namespace Wire.Decoding

def hasQuit (x : Decoding) : Bool := x.requests.any (·.isQuit)

def endingOf : Option DecodeError → Ending
  | none => .waiting
  | some (.protocol f) => .malformed f
  | some (.numeralTooLong _) => .broken

def ending (x : Decoding) : Ending := if x.hasQuit then .quit else endingOf x.fault

def actions (id : Nat) (now : Instant) (x : Decoding) : List Action :=
  (upToQuit x.requests).map (.execute id now)

end Wire.Decoding

open Wire (Decoder Decoding DecodeError)

theorem upToQuit_append {rs : List Request} (h : rs.any (·.isQuit) = false) (ss : List Request) :
    upToQuit (rs ++ ss) = rs ++ upToQuit ss := by
  induction rs with
  | nil => rfl
  | cons r rs ih =>
    rw [List.any_cons, Bool.or_eq_false_iff] at h
    rw [List.cons_append, upToQuit, h.1, ih h.2]
    rfl

theorem upToQuit_append_of_quit {rs : List Request} (h : rs.any (·.isQuit) = true) (ss : List Request) :
    upToQuit (rs ++ ss) = upToQuit rs := by
  induction rs with
  | nil => cases h
  | cons r rs ih =>
    rw [List.cons_append, upToQuit, upToQuit]
    cases hr : r.isQuit with
    | true => rfl
    | false =>
      have hrs : rs.any (·.isQuit) = true := by simpa only [List.any_cons, hr, Bool.false_or] using h
      rw [ih hrs]

theorem upToQuit_of_none {rs : List Request} (h : rs.any (·.isQuit) = false) : upToQuit rs = rs := by
  simpa only [List.append_nil, upToQuit] using upToQuit_append h []

namespace Keyspace

variable (s : Keyspace)

theorem play_append (as bs : List Action) :
    s.play (as ++ bs) = ((s.play as).1 ++ ((s.play as).2.play bs).1, ((s.play as).2.play bs).2) := by
  induction as generalizing s with
  | nil => rfl
  | cons a as ih => cases a <;> simp only [List.cons_append, play, ih]

theorem play_execute_request (id : Nat) (now : Instant) (rs : List Request) :
    (s.play (rs.map (.execute id now))).1.map (·.request) = rs := by
  induction rs generalizing s with
  | nil => rfl
  | cons r rs ih => simp only [List.map_cons, play, ih]

theorem play_execute_id (id : Nat) (now : Instant) (rs : List Request) :
    ∀ a ∈ (s.play (rs.map (.execute id now))).1, a.id = id := by
  induction rs generalizing s with
  | nil => simp [play]
  | cons r rs ih =>
    intro a ha
    simp only [List.map_cons, play, List.mem_cons] at ha
    rcases ha with rfl | ha
    · rfl
    · exact ih _ a ha

end Keyspace

namespace Wire.Decoding

variable {x : Decoding}

theorem hasQuit_after (rs : List Request) (x : Decoding) :
    (x.after rs).hasQuit = (rs.any (·.isQuit) || x.hasQuit) := List.any_append

theorem ending_after {rs : List Request} (h : rs.any (·.isQuit) = false) (x : Decoding) :
    (x.after rs).ending = x.ending := by
  rw [ending, hasQuit_after, h, Bool.false_or, after_fault]
  rfl

theorem ending_of_hasQuit (h : x.hasQuit = true) : x.ending = .quit := if_pos h

theorem ending_of_not_hasQuit (h : x.hasQuit = false) : x.ending = endingOf x.fault := by
  rw [ending, h]
  rfl

theorem ending_eq_waiting : x.ending = .waiting ↔ x.hasQuit = false ∧ x.fault = none := by
  cases h : x.hasQuit with
  | true => simp [ending_of_hasQuit h]
  | false =>
    rw [ending_of_not_hasQuit h]
    rcases x.fault with _ | (_ | _) <;> simp [endingOf]

end Wire.Decoding

namespace Wire.Decoder

variable {d : Decoder}

theorem requests_prefix_feed (d : Decoder) (b : Bytes) :
    d.drain.requests <+: (d.feed b).drain.requests := by
  fun_induction drain d with
  | case1 d f e hn => exact List.nil_prefix
  | case2 d e hn => exact List.nil_prefix
  | case3 d r e hn ih =>
    rw [drain_of_found (next_feed_of_found hn b)]
    exact (List.prefix_append_right_inj [r]).mpr ih

theorem feed_of_ended (h : d.drain.ending ≠ .waiting)
    (hd : d.drain.hasQuit = true ∨ d.drain.isTooBig = false) (b : Bytes) :
    upToQuit (d.feed b).drain.requests = upToQuit d.drain.requests ∧
      (d.feed b).drain.ending = d.drain.ending := by
  obtain ⟨rs, hrs⟩ := requests_prefix_feed d b
  cases hq : d.drain.hasQuit with
  | true =>
    have hb : (d.feed b).drain.hasQuit = true := by
      rw [Decoding.hasQuit, ← hrs, List.any_append]
      exact Bool.or_eq_true_iff.mpr (.inl hq)
    rw [← hrs, upToQuit_append_of_quit hq, Decoding.ending_of_hasQuit hb, Decoding.ending_of_hasQuit hq]
    exact ⟨rfl, rfl⟩
  | false =>
    obtain ⟨f, hf⟩ : ∃ f, d.drain.fault = some f :=
      Option.ne_none_iff_exists'.mp fun hn => h (Decoding.ending_eq_waiting.mpr ⟨hq, hn⟩)
    have hbig : f.isTooBig = false := by
      rw [hq, Decoding.isTooBig, hf] at hd
      simpa using hd
    obtain ⟨hr, hfault⟩ := drain_feed_of_some hf hbig b
    have hb : (d.feed b).drain.hasQuit = false := by rw [Decoding.hasQuit, hr]; exact hq
    rw [hr, Decoding.ending_of_not_hasQuit hb, Decoding.ending_of_not_hasQuit hq, hfault, hf]
    exact ⟨rfl, rfl⟩

end Wire.Decoder

namespace Exchange

/-- What a read comes to, told from the requests drained from its bytes. -/
structure Plays (id : Nat) (now : Instant) (count : Nat) (done : List Reply) (s : Keyspace) (y : Decoding)
    (x : Exchange) : Prop where
  requests : x.requests = count + (s.play (y.actions id now)).1.length
  replies : x.replies = done.reverse ++ (s.play (y.actions id now)).1.map (·.reply)
  keyspace : x.keyspace = (s.play (y.actions id now)).2
  ending : x.ending = y.ending
  decoder : y.ending = .waiting → x.decoder = y.decoder

variable {id : Nat} {now : Instant} {count : Nat} {done : List Reply} {s : Keyspace} {d e : Decoder} {r : Request}

theorem run_of_error {f : DecodeError} (h : d.next = (.error f, e)) :
    run now count done d s = ⟨count, done.reverse, Decoding.endingOf (some f), e, s⟩ := by
  rw [run_eq, h]
  cases f <;> rfl

theorem run_of_none (h : d.next = (.ok none, e)) :
    run now count done d s = ⟨count, done.reverse, .waiting, e, s⟩ := by
  rw [run_eq, h]

theorem run_of_quit (h : d.next = (.ok (some r), e)) (hr : r.isQuit = true) :
    run now count done d s =
      ⟨count + 1, ((execute now s r).1 :: done).reverse, .quit, e, (execute now s r).2⟩ := by
  rw [run_eq, h]
  simp only [hr, if_true]

theorem run_of_found (h : d.next = (.ok (some r), e)) (hr : r.isQuit = false) :
    run now count done d s = run now (count + 1) ((execute now s r).1 :: done) e (execute now s r).2 := by
  rw [run_eq, h]
  simp only [hr, Bool.false_eq_true, if_false]

theorem run_plays : (run now count done d s).Plays id now count done s d.drain := by
  -- Draining goes on past a request that takes leave; the read stops there, and so does its history.
  fun_induction Decoder.drain d generalizing count done s with
  | case1 d f e hn =>
    rw [run_of_error hn]
    refine ⟨rfl, (List.append_nil _).symm, rfl, rfl, fun h => ?_⟩
    cases (Decoding.ending_eq_waiting.mp h).2
  | case2 d e hn =>
    rw [run_of_none hn]
    exact ⟨rfl, (List.append_nil _).symm, rfl, rfl, fun _ => rfl⟩
  | case3 d r e hn ih =>
    cases hr : r.isQuit with
    | true =>
      have hq : (e.drain.after [r]).ending = .quit :=
        Decoding.ending_of_hasQuit (by simp [Decoding.hasQuit_after, hr])
      have ha : (e.drain.after [r]).actions id now = [.execute id now r] := by
        simp [Decoding.actions, upToQuit, hr]
      rw [run_of_quit hn hr]
      refine ⟨?_, ?_, ?_, hq.symm, fun h => ?_⟩
      · simp [ha, Keyspace.play]
      · simp [ha, Keyspace.play]
      · simp [ha, Keyspace.play]
      · rw [hq] at h
        cases h
    | false =>
      have hq : (e.drain.after [r]).ending = e.drain.ending :=
        Decoding.ending_after (by simp [hr]) _
      have ha : (e.drain.after [r]).actions id now = .execute id now r :: e.drain.actions id now := by
        simp [Decoding.actions, upToQuit, hr]
      obtain ⟨hrequests, hreplies, hkeyspace, hending, hdecoder⟩ :=
        @ih (count + 1) ((execute now s r).1 :: done) (execute now s r).2
      rw [run_of_found hn hr]
      refine ⟨?_, ?_, ?_, hending.trans hq.symm, fun h => hdecoder (hq.symm.trans h)⟩
      · rw [hrequests, ha, Keyspace.play, List.length_cons]
        omega
      · simpa [ha, Keyspace.play] using hreplies
      · simpa [ha, Keyspace.play] using hkeyspace

theorem requests_run (now : Instant) (count : Nat) (d : Decoder) (s : Keyspace) :
    (run now count [] d s).requests = count + (run now count [] d s).replies.length := by
  have hplays : (run now count [] d s).Plays 0 now count [] s d.drain := run_plays
  rw [hplays.requests, hplays.replies, List.length_append, List.length_map]
  simp only [List.reverse_nil, List.length_nil, Nat.zero_add]

end Exchange

end RespStore
