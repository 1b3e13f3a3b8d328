import RespStore.Proofs.Server.Timeline

/-! Every connection is served as if it were alone, from one sequential history of all of them: each request in
its stream is answered once and in order, and nothing that comes after the end of its service is heard. -/

namespace RespStore.Server

open Wire (Decoder Decoding)

def answers (id : Nat) (s : Server) (es : List Event) : List Answered :=
  (s.keyspace.play (s.history es)).1.filter (·.id = id)

def heard (id : Nat) (s : Server) (es : List Event) : Decoding :=
  (({} : Decoder).feed (s.sent id es)).drain

/-- The service of one connection accounts for a decoding: an answer for each request up to one that takes
leave, a notice of a fault, not a byte more, and an open connection only while it waits. -/
structure Serves (id : Nat) (s : Server) (es : List Event) (x : Decoding) : Prop where
  requests : (s.answers id es).map (·.request) = upToQuit x.requests
  written : s.written id es =
    Reply.listToBytes ((s.answers id es).map (·.reply) ++ (Exchange.notice x.ending).toList)
  serving : (s.after es).isServing id = true ↔
    id < (s.after es).opened ∧ s.ended id es = false ∧ x.ending = .waiting

variable {s : Server} {id : Nat} {e : Event} {d : Decoder} {now : Instant} {data : Bytes}

def answersTo (id : Nat) (s : Server) (e : Event) : List Answered :=
  (s.keyspace.play (s.actions e)).1.filter (·.id = id)

theorem answers_cons (es : List Event) :
    s.answers id (e :: es) = s.answersTo id e ++ (s.step e).answers id es := by
  rw [answers, history, Keyspace.play_append, List.filter_append, ← keyspace_step]
  rfl

structure Silent (id : Nat) (s : Server) (e : Event) : Prop where
  input : s.input id e = []
  answers : s.answersTo id e = []
  output : s.output id e = []

inductive Turn (id : Nat) (s : Server) (e : Event) : Prop where
  | aside (silent : s.Silent id e) (ends : e.ends id = false)
      (opened : id < (s.step e).opened ↔ id < s.opened)
      (find : (s.step e).connections.find? id = s.connections.find? id)
  | opened (silent : s.Silent id e) (ends : e.ends id = false) (new : id = s.opened)
      (opened : id < (s.step e).opened) (find : (s.step e).connections.find? id = some {})
  | closed (silent : s.Silent id e) (ends : e.ends id = true) (opened : (s.step e).opened = s.opened)
      (find : (s.step e).connections.find? id = none)
  | read (now : Instant) (d : Decoder) (data : Bytes) (receive : e = .receive now id data)
      (serving : s.connections.find? id = some d) (data_ne : data ≠ [])

theorem answersTo_of_ne {j : Nat} (hj : j ≠ id) : s.answersTo id (.receive now j data) = [] := by
  apply List.filter_eq_nil_iff.mpr
  intro a ha
  rcases s.idle_or_serving j data with h | ⟨d, hd, hdata⟩
  · rw [actions_of_idle h] at ha
    cases ha
  · rw [actions_of_serving hd hdata] at ha
    have hid : a.id = j := Keyspace.play_execute_id _ j now _ a ha
    simpa [hid] using hj

theorem find?_receive_of_ne {j : Nat} (hj : j ≠ id) :
    (s.step (.receive now j data)).connections.find? id = s.connections.find? id := by
  rcases s.idle_or_serving j data with h | ⟨d, hd, hdata⟩
  · rw [step, receive_of_idle h]
    exact Bindings.find?_erase_of_ne hj.symm _
  · rw [step, receive_of_serving hd hdata]
    show (if _ then _ else _ : Bindings Nat Decoder).find? id = _
    split
    · exact Bindings.find?_put_of_ne hj.symm _ _
    · exact Bindings.find?_erase_of_ne hj.symm _

theorem opened_receive (j : Nat) : (s.step (.receive now j data)).opened = s.opened := by
  rw [step, receive]
  cases s.read? now j data <;> rfl

theorem silent_of_idle (h : s.connections.find? id = none ∨ data = []) :
    s.Silent id (.receive now id data) where
  input := by
    rcases h with h | rfl
    · simp [input, isServing, h]
    · simp [input]
  answers := by
    rw [answersTo, actions_of_idle h]
    rfl
  output := by simp [output, receive_of_idle h]

theorem turn (id : Nat) (s : Server) (e : Event) : s.Turn id e := by
  cases e with
  | accept =>
    by_cases hid : id = s.opened
    · exact .opened ⟨rfl, rfl, rfl⟩ rfl hid (by simp [hid, step, accept])
        (by rw [hid]; exact Bindings.find?_put_self _ _ _)
    · refine .aside ⟨rfl, rfl, rfl⟩ rfl ?_ (Bindings.find?_put_of_ne hid _ _)
      show id < s.opened + 1 ↔ id < s.opened
      omega
  | sweep now => exact .aside ⟨rfl, rfl, rfl⟩ rfl .rfl rfl
  | disconnect j =>
    by_cases hj : j = id
    · exact .closed ⟨rfl, rfl, rfl⟩ (by simp [Event.ends, hj]) rfl
        (by rw [hj]; exact Bindings.find?_erase_self _ _)
    · exact .aside ⟨rfl, rfl, rfl⟩ (by simp [Event.ends, hj]) .rfl
        (Bindings.find?_erase_of_ne (Ne.symm hj) _)
  | receive now j data =>
    have hopened : (s.step (.receive now j data)).opened = s.opened := opened_receive j
    by_cases hj : j = id
    · subst hj
      by_cases hdata : data = []
      · refine .closed (silent_of_idle (.inr hdata)) (by simp [Event.ends, hdata]) hopened ?_
        rw [step, receive_of_idle (.inr hdata)]
        exact Bindings.find?_erase_self _ _
      · cases hd : s.connections.find? j with
        | none =>
          refine .aside (silent_of_idle (.inl hd)) (by simp [Event.ends, hdata]) (by rw [hopened]) ?_
          rw [step, receive_of_idle (.inl hd), hd]
          exact Bindings.find?_erase_self _ _
        | some d => exact .read now d data rfl hd hdata
    · have hsilent : s.Silent id (.receive now j data) :=
        ⟨by simp [input, hj], answersTo_of_ne hj, by simp [output, hj]⟩
      exact .aside hsilent (by simp [Event.ends, hj]) (by rw [hopened]) (find?_receive_of_ne hj)

theorem serves_cons_of_silent {x : Decoding} {es : List Event} (h : (s.step e).Serves id es x)
    (he : s.Silent id e) (hends : (id < s.opened && e.ends id) = false) : s.Serves id (e :: es) x where
  requests := by rw [answers_cons, he.answers]; exact h.requests
  written := by rw [written, answers_cons, he.answers, he.output]; exact h.written
  serving := by rw [after_cons, ended, hends]; exact h.serving

theorem sent_cons_of_silent (he : s.Silent id e) (es : List Event) :
    s.sent id (e :: es) = (s.step e).sent id es := by
  rw [sent, he.input]
  rfl

structure Gone (id : Nat) (s : Server) (es : List Event) : Prop where
  sent : s.sent id es = []
  answers : s.answers id es = []
  written : s.written id es = []
  serving : (s.after es).isServing id = false

theorem gone_of_closed (hs : s.connections.find? id = none) (hid : id < s.opened) (es : List Event) :
    s.Gone id es := by
  induction es generalizing s with
  | nil => exact ⟨rfl, rfl, rfl, by simp [isServing, hs]⟩
  | cons e es ih =>
    have hcons : s.Silent id e → (s.step e).Gone id es → s.Gone id (e :: es) := by
      intro he h
      refine ⟨?_, ?_, ?_, h.serving⟩
      · rw [sent_cons_of_silent he, h.sent]
      · rw [answers_cons, he.answers, h.answers]
        rfl
      · rw [written, he.output, h.written]
        rfl
    cases turn id s e with
    | aside silent ends opened find => exact hcons silent (ih (find.trans hs) (opened.mpr hid))
    | opened silent ends new => omega
    | closed silent ends opened find => exact hcons silent (ih find (by rw [opened]; exact hid))
    | read now d data receive serving => simp [hs] at serving

structure Heard (id : Nat) (s : Server) (e : Event) (data : Bytes) (x : Decoding) : Prop where
  input : s.input id e = data
  requests : (s.answersTo id e).map (·.request) = upToQuit x.requests
  output : s.output id e =
    Reply.listToBytes ((s.answersTo id e).map (·.reply) ++ (Exchange.notice x.ending).toList)
  find : (s.step e).connections.find? id = if x.ending = .waiting then some x.decoder else none
  ends : e.ends id = false
  opened : (s.step e).opened = s.opened

theorem heard_of_serving (now : Instant) (hd : s.connections.find? id = some d) (hdata : data ≠ []) :
    s.Heard id (.receive now id data) data (d.feed data).drain := by
  have hplays : (Exchange.run now s.requests [] (d.feed data) s.keyspace).Plays id now s.requests [] s.keyspace
      (d.feed data).drain := Exchange.run_plays
  have hown : s.answersTo id (.receive now id data) =
      (s.keyspace.play ((d.feed data).drain.actions id now)).1 := by
    rw [answersTo, actions_of_serving hd hdata]
    apply List.filter_eq_self.mpr
    intro a ha
    simpa using Keyspace.play_execute_id _ id now _ a ha
  refine ⟨by simp [input, isServing, hd], ?_, ?_, ?_, by simp [Event.ends, hdata], opened_receive id⟩
  · rw [hown]
    exact Keyspace.play_execute_request _ id now _
  · have houtput : s.output id (.receive now id data) =
        (Exchange.run now s.requests [] (d.feed data) s.keyspace).toBytes := by
      simp only [output, if_true, receive_of_serving hd hdata]
    rw [houtput, hown, Exchange.toBytes, hplays.replies, hplays.ending]
    rfl
  · rw [step, receive_of_serving hd hdata]
    simp only [settle, hplays.ending]
    by_cases hw : (d.feed data).drain.ending = .waiting
    · rw [if_pos hw, if_pos hw, hplays.decoder hw]
      exact Bindings.find?_put_self _ _ _
    · rw [if_neg hw, if_neg hw]
      exact Bindings.find?_erase_self _ _

theorem serves_cons_of_waiting {x y : Decoding} {es : List Event} (h : s.Heard id e data x)
    (hx : x.ending = .waiting) (hrest : (s.step e).Serves id es y) :
    s.Serves id (e :: es) (y.after x.requests) := by
  have hquit : x.requests.any (·.isQuit) = false := (Decoding.ending_eq_waiting.mp hx).1
  have hending : (y.after x.requests).ending = y.ending := Decoding.ending_after hquit y
  refine ⟨?_, ?_, ?_⟩
  · rw [answers_cons, List.map_append, h.requests, hrest.requests, Decoding.after_requests,
      upToQuit_of_none hquit, upToQuit_append hquit]
  · rw [answers_cons, written, h.output, hrest.written, hending, hx, ← Reply.listToBytes_append,
      List.map_append]
    simp only [Exchange.notice, Option.toList_none, List.append_nil, List.append_assoc]
  · rw [after_cons, ended, h.ends, Bool.and_false, Bool.false_or, hending]
    exact hrest.serving

theorem serves_cons_of_ending {x : Decoding} {es : List Event} (h : s.Heard id e data x)
    (hx : x.ending ≠ .waiting) (hgone : (s.step e).Gone id es) : s.Serves id (e :: es) x := by
  refine ⟨?_, ?_, ?_⟩
  · rw [answers_cons, hgone.answers, List.append_nil]
    exact h.requests
  · rw [answers_cons, written, hgone.answers, hgone.written, List.append_nil, List.append_nil]
    exact h.output
  · simp [hgone.serving, hx]

theorem serves_of_over {es : List Event} (d : Decoder) (hid : id < s.opened) (he : s.Silent id e)
    (hends : e.ends id = true) (hgone : (s.step e).Gone id es) : s.Serves id (e :: es) ⟨[], none, d⟩ := by
  refine ⟨?_, ?_, ?_⟩
  · rw [answers_cons, he.answers, hgone.answers]
    rfl
  · rw [answers_cons, written, he.answers, he.output, hgone.answers, hgone.written]
    rfl
  · simp [hgone.serving, ended, hid, hends]

theorem serves_of_serving (hd : s.connections.find? id = some d) (hid : id < s.opened)
    (hq : d.next = (.ok none, d)) (es : List Event) :
    s.Serves id es (d.feed (s.sent id es)).drain := by
  -- Along the events the decoder changes only by a read that leaves it waiting again, and then the rest
  -- of the stream, drained from the decoder left, continues what this read has drained.
  induction es generalizing s d with
  | nil =>
    rw [sent, Decoder.feed_nil, Decoder.drain_of_none hq]
    exact ⟨rfl, rfl, by simp [isServing, hd, hid, ended, Decoding.ending_eq_waiting, Decoding.hasQuit]⟩
  | cons e es ih =>
    cases turn id s e with
    | aside silent ends opened find =>
      have hrest := ih (find.trans hd) (opened.mpr hid) hq
      rw [sent_cons_of_silent silent]
      exact serves_cons_of_silent hrest silent (by simp [ends])
    | opened silent ends new => omega
    | closed silent ends opened find =>
      have hgone : (s.step e).Gone id es := gone_of_closed find (by rw [opened]; exact hid) es
      rw [sent_cons_of_silent silent, hgone.sent, Decoder.feed_nil, Decoder.drain_of_none hq]
      exact serves_of_over d hid silent ends hgone
    | read now d' data receive serving data_ne =>
      obtain rfl : d' = d := Option.some.inj (serving.symm.trans hd)
      subst receive
      have h := heard_of_serving now hd data_ne
      have hid' : id < (s.step (.receive now id data)).opened := by rw [h.opened]; exact hid
      rw [sent, h.input, ← Decoder.feed_feed]
      by_cases hw : (d'.feed data).drain.ending = .waiting
      · have hfault : (d'.feed data).drain.fault = none := (Decoding.ending_eq_waiting.mp hw).2
        have hfind := h.find
        rw [if_pos hw] at hfind
        have hrest := ih hfind hid' (Decoder.next_drain hfault)
        rw [Decoder.drain_feed_of_none hfault]
        exact serves_cons_of_waiting h hw hrest
      · have hfind := h.find
        rw [if_neg hw] at hfind
        have hgone := gone_of_closed hfind hid' es
        rw [hgone.sent, Decoder.feed_nil]
        exact serves_cons_of_ending h hw hgone

theorem serves_of_unopened (hs : s.connections.find? id = none) (hid : s.opened ≤ id)
    (es : List Event) : s.Serves id es (s.heard id es) := by
  have hfresh : ({} : Decoder).next = (.ok none, {}) := Decoder.next_fresh {}
  induction es generalizing s with
  | nil =>
    rw [heard, sent, Decoder.feed_nil, Decoder.drain_of_none hfresh]
    exact ⟨rfl, rfl, by simp [isServing, hs]; omega⟩
  | cons e es ih =>
    have hends : (id < s.opened && e.ends id) = false := by simp; omega
    have hcons : s.Silent id e → s.heard id (e :: es) = (s.step e).heard id es := by
      intro he
      rw [heard, sent_cons_of_silent he]
      rfl
    cases turn id s e with
    | aside silent ends opened find =>
      have hid' : (s.step e).opened ≤ id := by omega
      rw [hcons silent]
      exact serves_cons_of_silent (ih (find.trans hs) hid') silent hends
    | opened silent ends new opened find =>
      rw [hcons silent]
      exact serves_cons_of_silent (serves_of_serving find opened hfresh es) silent hends
    | closed silent ends opened find =>
      rw [hcons silent]
      exact serves_cons_of_silent (ih find (by rw [opened]; exact hid)) silent hends
    | read now d data receive serving => simp [hs] at serving

/-- A connection is served for what it sent while it was open. Had it sent more after the end, nothing of
that would have been heard, unless the end was a line given up unfinished. -/
structure Served (id : Nat) (s : Server) (es : List Event) : Prop where
  serves : s.Serves id es (s.heard id es)
  final : (s.heard id es).ending ≠ .waiting →
    (s.heard id es).hasQuit = true ∨ (s.heard id es).isTooBig = false →
    ∀ more, let x := (({} : Decoder).feed (s.sent id es ++ more)).drain
      upToQuit x.requests = upToQuit (s.heard id es).requests ∧ x.ending = (s.heard id es).ending

theorem served_in_sequence {s : Server} (hs : s.connections = []) (ho : s.opened = 0)
    (es : List Event) :
    (s.after es).keyspace = (s.keyspace.play (s.history es)).2 ∧ ∀ id, s.Served id es := by
  refine ⟨keyspace_after s es, fun id => ⟨?_, fun h hd more => ?_⟩⟩
  · exact serves_of_unopened (by rw [hs]; rfl) (by omega) es
  · rw [← Decoder.feed_feed]
    exact Decoder.feed_of_ended h hd more

def takingTurns : List Event :=
  [.accept, .accept, .receive .nan 0 (.ofString "PI"),
    .receive .nan 1 (.ofString "SET k v\r\nQUIT\r\nGET k\r\n"), .sweep .nan,
    .receive .nan 0 (.ofString "NG\r\nGET k\r\n*x\r\n"), .receive .nan 0 (.ofString "PING\r\n")]

def unused : Server := { host := [], port := 0, interval := .nan }

theorem served_in_sequence_takingTurns :
    ((unused.after takingTurns).keyspace = (Keyspace.play [] (unused.history takingTurns)).2 ∧
      ∀ id, unused.Served id takingTurns) ∧
      unused.written 0 takingTurns = .ofString
        "$4\r\nPONG\r\n$1\r\nv\r\n-ERR Protocol error: invalid multibulk length\r\n" :=
  ⟨served_in_sequence rfl rfl takingTurns, by decide +kernel⟩

end RespStore.Server
