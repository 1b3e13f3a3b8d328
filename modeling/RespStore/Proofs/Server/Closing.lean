import RespStore.Proofs.Server.Accounting
import RespStore.Server.Lifecycle

/-! Letting go of connections. Each of them is closed, and its handler leaves then and there or goes on until it has
read what had come; nothing else about the server is touched, and no connection that is closed lasts. -/

namespace RespStore.Server

variable {s t u : Server} {id n : Nat} {now : Instant} {waiting : Bindings Nat (List Bytes)}

structure SameSocket (s t : Server) : Prop where
  host : t.host = s.host
  port : t.port = s.port
  interval : t.interval = s.interval
  bound : t.bound = s.bound
  running : t.running = s.running
  sweeping : t.sweeping = s.sweeping
  serving : t.serving = s.serving

theorem sameSocket_step (s : Server) (e : Event) : s.SameSocket (s.step e) := by
  cases e with
  | accept | disconnect | sweep => exact ⟨rfl, rfl, rfl, rfl, rfl, rfl, rfl⟩
  | receive now id data =>
    rw [step, receive]
    cases s.read? now id data <;> exact ⟨rfl, rfl, rfl, rfl, rfl, rfl, rfl⟩

theorem unread_step (s : Server) (e : Event) : (s.step e).unread = s.unread := by
  cases e with
  | accept | disconnect | sweep => rfl
  | receive now id data =>
    rw [step, receive]
    cases s.read? now id data <;> rfl

theorem le_opened_step (s : Server) (e : Event) : s.opened ≤ (s.step e).opened := by
  rw [(counted s e).opened]
  exact Nat.le_add_right _ _

theorem isServing_of_step {e : Event} (hid : id < s.opened) (h : (s.step e).isServing id = true) :
    s.isServing id = true := by
  rw [isServing] at h ⊢
  cases turn id s e with
  | aside silent ends opened find => rwa [find] at h
  | opened silent ends new => omega
  | closed silent ends opened find =>
    rw [find] at h
    cases h
  | read now d data receive serving =>
    rw [serving]
    rfl

structure Closes (s t : Server) : Prop where
  frame : ∃ connections unread, t = { s with connections, unread }
  connections : t.connections.Sublist s.connections
  unread : ∀ id data, s.unread.find? id = some data → t.unread.find? id = some data

namespace Closes

theorem refl (s : Server) : s.Closes s := ⟨⟨_, _, rfl⟩, .refl _, fun _ _ h => h⟩

theorem trans (h : s.Closes t) (h' : t.Closes u) : s.Closes u := by
  refine ⟨?_, h'.connections.trans h.connections, fun id data hd => h'.unread id data (h.unread id data hd)⟩
  obtain ⟨_, _, rfl⟩ := h.frame
  obtain ⟨c, d, rfl⟩ := h'.frame
  exact ⟨c, d, rfl⟩

theorem isServing (h : s.Closes t) (ht : t.isServing id = true) : s.isServing id = true :=
  isServing_iff.mpr ((h.connections.map Prod.fst).subset (isServing_iff.mp ht))

theorem opened (h : s.Closes t) : t.opened = s.opened := by
  obtain ⟨_, _, rfl⟩ := h.frame
  rfl

theorem registered (h : s.Closes t) (hs : s.Registered) : t.Registered where
  nodup := hs.nodup.sublist (h.connections.map Prod.fst)
  lt_opened id hid := by
    rw [h.opened]
    exact hs.lt_opened id ((h.connections.map Prod.fst).subset hid)

end Closes

theorem closes_close (waiting : Bindings Nat (List Bytes)) (s : Server) (id : Nat) : s.Closes (s.close waiting id) := by
  unfold close
  split
  · exact .refl s
  · rename_i hunread _
    refine ⟨⟨_, _, rfl⟩, .refl _, fun j data hj => ?_⟩
    have hne : j ≠ id := by
      rintro rfl
      cases hunread.symm.trans hj
    exact (Bindings.find?_put_of_ne hne _ _).trans hj
  · exact ⟨⟨_, _, rfl⟩, List.filter_sublist, fun _ _ h => h⟩

theorem unread_close_of_ne {j : Nat} (hj : j ≠ id) : (s.close waiting id).unread.find? j = s.unread.find? j := by
  unfold close
  split
  · rfl
  · exact Bindings.find?_put_of_ne hj _ _
  · rfl

theorem close_of_serving (h : (s.close waiting id).isServing id = true) :
    ∃ data, (s.close waiting id).unread.find? id = some data ∧
      (s.unread.find? id = some data ∨ waiting.find? id = some data) := by
  unfold close at h ⊢
  split at h
  · rename_i data hdata
    exact ⟨data, hdata, .inl hdata⟩
  · rename_i data _ hdata
    exact ⟨data, Bindings.find?_put_self _ _ _, .inr hdata⟩
  · rw [disconnect, isServing, Bindings.find?_erase_self] at h
    cases h

section All

variable {ids : List Nat}

theorem closes_all (waiting : Bindings Nat (List Bytes)) (ids : List Nat) (s : Server) :
    s.Closes (ids.foldl (close waiting) s) := by
  induction ids generalizing s with
  | nil => exact .refl s
  | cons j ids ih => exact (closes_close waiting s j).trans (ih _)

theorem all_of_serving (hid : id ∈ ids) (h : (ids.foldl (close waiting) s).isServing id = true) :
    ∃ data, (ids.foldl (close waiting) s).unread.find? id = some data ∧
      (s.unread.find? id = some data ∨ waiting.find? id = some data) := by
  induction ids generalizing s with
  | nil => cases hid
  | cons j ids ih =>
    rw [List.foldl_cons] at h ⊢
    by_cases hj : id = j
    · subst hj
      have hrest : (s.close waiting id).Closes _ := closes_all waiting ids (s.close waiting id)
      obtain ⟨data, hdata, hfrom⟩ := close_of_serving (hrest.isServing h)
      exact ⟨data, hrest.unread id data hdata, hfrom⟩
    · obtain ⟨data, hdata, hfrom⟩ := ih (List.mem_of_ne_of_mem hj hid) h
      rw [unread_close_of_ne hj] at hfrom
      exact ⟨data, hdata, hfrom⟩

end All

def letGo (waiting : Bindings Nat (List Bytes)) (s : Server) : Server :=
  { s.connections.keys.foldl (close waiting) s with
    sweeping := false, bound := false, running := false, serving := false }

theorem stop_of_bound (hb : s.bound = true) (waiting : Bindings Nat (List Bytes)) :
    s.stop waiting = s.letGo waiting := if_pos hb

theorem stop_of_idle (hb : s.bound = false) (hs : s.sweeping = false) (waiting : Bindings Nat (List Bytes)) :
    s.stop waiting = s := by
  rw [stop, if_neg (by rw [hb]; exact Bool.false_ne_true), ← hs]

theorem letGo_eq (waiting : Bindings Nat (List Bytes)) (s : Server) :
    ∃ connections unread, s.letGo waiting =
      { s with connections, unread, sweeping := false, bound := false, running := false, serving := false } := by
  obtain ⟨c, d, h⟩ := (closes_all waiting s.connections.keys s).frame
  exact ⟨c, d, by rw [letGo, h]⟩

section Frame

variable (waiting : Bindings Nat (List Bytes)) (s : Server)

@[simp] theorem letGo_host : (s.letGo waiting).host = s.host := by
  obtain ⟨_, _, h⟩ := s.letGo_eq waiting
  rw [h]

@[simp] theorem letGo_port : (s.letGo waiting).port = s.port := by
  obtain ⟨_, _, h⟩ := s.letGo_eq waiting
  rw [h]

@[simp] theorem letGo_keyspace : (s.letGo waiting).keyspace = s.keyspace := by
  obtain ⟨_, _, h⟩ := s.letGo_eq waiting
  rw [h]

@[simp] theorem letGo_opened : (s.letGo waiting).opened = s.opened := by
  obtain ⟨_, _, h⟩ := s.letGo_eq waiting
  rw [h]

end Frame

theorem letGo_of_serving (h : (s.letGo waiting).isServing id = true) :
    ∃ data, (s.letGo waiting).unread.find? id = some data ∧
      (s.unread.find? id = some data ∨ waiting.find? id = some data) :=
  all_of_serving (isServing_iff.mp ((closes_all waiting s.connections.keys s).isServing h)) h

theorem registered_letGo (hs : s.Registered) (waiting : Bindings Nat (List Bytes)) : (s.letGo waiting).Registered := by
  obtain ⟨hnodup, hlt⟩ := (closes_all waiting s.connections.keys s).registered hs
  exact ⟨hnodup, hlt⟩

theorem unread_letGo_of_nil (h : s.unread = []) : (s.letGo []).unread = [] := by
  show (s.connections.keys.foldl (close []) s).unread = []
  generalize s.connections.keys = ids
  induction ids generalizing s with
  | nil => exact h
  | cons id ids ih =>
    have hclose : s.close [] id = s.disconnect id := by
      rw [close, h]
      rfl
    rw [List.foldl_cons, hclose]
    exact ih h

section Resume

theorem resume_of_none (h : s.unread.find? id = none) (now : Instant) : s.resume now id = ([], s) := by
  rw [resume, h]

theorem resume_of_some {data : List Bytes} (h : s.unread.find? id = some data) (now : Instant) :
    s.resume now id = { s with unread := s.unread.put id data.tail }.receive now id (data.headD []) := by
  rw [resume, h]

theorem resume_eq (now : Instant) (id : Nat) (s : Server) :
    (s.resume now id).2 = s ∨
      ∃ unread data, (s.resume now id).2 = { s with unread }.step (.receive now id data) := by
  cases h : s.unread.find? id with
  | none => exact .inl (by rw [resume_of_none h])
  | some data => exact .inr ⟨_, _, by rw [resume_of_some h]; rfl⟩

theorem sameSocket_resume (now : Instant) (id : Nat) (s : Server) : s.SameSocket (s.resume now id).2 := by
  rcases resume_eq now id s with h | ⟨unread, data, h⟩
  · rw [h]
    exact ⟨rfl, rfl, rfl, rfl, rfl, rfl, rfl⟩
  · obtain ⟨hhost, hport, hinterval, hbound, hrunning, hsweeping, hserving⟩ :=
      ({ s with unread } : Server).sameSocket_step (.receive now id data)
    rw [h]
    exact ⟨hhost, hport, hinterval, hbound, hrunning, hsweeping, hserving⟩

theorem registered_resume (hs : s.Registered) (now : Instant) (id : Nat) : (s.resume now id).2.Registered := by
  rcases resume_eq now id s with h | ⟨unread, data, h⟩
  · rw [h]
    exact hs
  · rw [h]
    have hsame : ({ s with unread } : Server).Registered := ⟨hs.nodup, hs.lt_opened⟩
    exact registered_step hsame (.receive now id data)

end Resume

/-- A connection that is served no more, or for so many reads at most. -/
structure Due (id n : Nat) (s : Server) : Prop where
  lt_opened : id < s.opened
  unread : s.isServing id = true → ∃ data, s.unread.find? id = some data ∧ data.length < n

namespace Due

theorem congr (h : s.Due id n) (hopened : s.opened ≤ t.opened)
    (hserving : t.isServing id = true → s.isServing id = true)
    (hunread : ∀ data, s.unread.find? id = some data → t.unread.find? id = some data) : t.Due id n where
  lt_opened := Nat.lt_of_lt_of_le h.lt_opened hopened
  unread ht := by
    obtain ⟨data, hdata, hn⟩ := h.unread (hserving ht)
    exact ⟨data, hunread data hdata, hn⟩

theorem not_isServing (h : s.Due id 0) : s.isServing id = false := by
  rw [← Bool.not_eq_true]
  intro hs
  obtain ⟨_, _, hn⟩ := h.unread hs
  exact absurd hn (Nat.not_lt_zero _)

theorem step (h : s.Due id n) (e : Event) : (s.step e).Due id n :=
  h.congr (s.le_opened_step e) (isServing_of_step h.lt_opened) fun data hdata => by rwa [unread_step]

theorem letGo (h : s.Due id n) (waiting : Bindings Nat (List Bytes)) : (s.letGo waiting).Due id n := by
  have hcloses : s.Closes _ := closes_all waiting s.connections.keys s
  exact h.congr (Nat.le_of_eq hcloses.opened.symm) hcloses.isServing (hcloses.unread id)

theorem resume_of_ne (h : s.Due id n) {j : Nat} (hj : j ≠ id) (now : Instant) : (s.resume now j).2.Due id n := by
  cases hd : s.unread.find? j with
  | none =>
    rw [resume_of_none hd]
    exact h
  | some data =>
    have hless : ({ s with unread := s.unread.put j data.tail } : Server).Due id n :=
      h.congr (Nat.le_refl _) (fun hs => hs) fun rest hrest => (Bindings.find?_put_of_ne hj.symm _ _).trans hrest
    rw [resume_of_some hd]
    exact hless.step (.receive now j _)

theorem resume (h : s.Due id (n + 1)) (now : Instant) : (s.resume now id).2.Due id n := by
  cases hd : s.unread.find? id with
  | none =>
    rw [resume_of_none hd]
    refine ⟨h.lt_opened, fun hs => ?_⟩
    obtain ⟨data, hdata, -⟩ := h.unread hs
    cases hd.symm.trans hdata
  | some data =>
    let less : Server := { s with unread := s.unread.put id data.tail }
    have hresume : (s.resume now id).2 = less.step (.receive now id (data.headD [])) := by
      rw [resume_of_some hd]
      rfl
    rw [hresume]
    refine ⟨Nat.lt_of_lt_of_le h.lt_opened (less.le_opened_step _), fun hs => ?_⟩
    -- With nothing left to read the handler finds the end of the stream, and leaves.
    cases data with
    | nil =>
      rw [List.headD_nil, Server.step, receive_of_idle (.inr rfl), isServing, disconnect, Bindings.find?_erase_self] at hs
      cases hs
    | cons first rest =>
      have hserving : less.isServing id = true := isServing_of_step h.lt_opened hs
      obtain ⟨data, hdata, hn⟩ := h.unread hserving
      obtain rfl := Option.some.inj (hd.symm.trans hdata)
      refine ⟨rest, ?_, Nat.lt_of_succ_lt_succ hn⟩
      rw [unread_step]
      exact Bindings.find?_put_self _ _ _

end Due

end RespStore.Server
