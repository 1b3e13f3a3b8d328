import RespStore.Proofs.Server.Closing

/-! A server and what its calls bring about in the world. The server itself only keeps flags and handles; what these
stand for comes and goes with the calls, in any order and with any outcome, and the two stay in step. -/

namespace RespStore

structure Host where
  server : Server
  listeners : Nat := 0
  sweeps : Nat := 0

/-- Whether an event is heard at all: nothing more is taken from the network for a closed connection. -/
def Server.hears (s : Server) : Server.Event → Bool
  | .receive _ id _ => (s.unread.find? id).isNone
  | _ => true

namespace Host

inductive Call where
  | listen (net : Network BindFailure)
  | start (net : Network BindFailure)
  | stop (waiting : Bindings Nat (List Bytes))
  | resume (now : Instant) (id : Nat)
  | meanwhile (e : Server.Event)

inductive Outcome where
  | done
  | raised (e : BindFailure)
  /-- The socket is closed, or another call of `start` is serving on it. -/
  | occupied
deriving DecidableEq

def follow (s : Server) (h : Host) : Host :=
  if h.server.bound then { h with server := s }
  else { server := s, listeners := h.listeners + 1, sweeps := h.sweeps + s.interval.isPositive.toNat }

def listen (net : Network BindFailure) (h : Host) : Outcome × Host :=
  match h.server.listen net with
  | (.ok (), s) => (.done, h.follow s)
  | (.error e, s) => (.raised e, { h with server := s })

/-- Where it cannot serve it closes the socket all the same, and that ends the call that could. -/
def start (net : Network BindFailure) (h : Host) : Outcome × Host :=
  match h.server.start net with
  | (.ok (), s) =>
    let k := h.follow s
    if h.server.serving || k.listeners == 0 then
      (.occupied, { k with server := k.server.leave, listeners := k.listeners - 1 })
    else (.done, k)
  | (.error e, s) => (.raised e, { h with server := s })

def stop (waiting : Bindings Nat (List Bytes)) (h : Host) : Host where
  server := h.server.stop waiting
  listeners := h.listeners - h.server.bound.toNat
  sweeps := h.sweeps - h.server.sweeping.toNat

def meanwhile (e : Server.Event) (h : Host) : Host :=
  if h.server.hears e then { h with server := h.server.step e } else h

def call (h : Host) : Call → Outcome × Host
  | .listen net => h.listen net
  | .start net => h.start net
  | .stop waiting => (.done, h.stop waiting)
  | .resume now id => (.done, { h with server := (h.server.resume now id).2 })
  | .meanwhile e => (.done, h.meanwhile e)

def after (h : Host) (cs : List Call) : Host := cs.foldl (fun h c => (h.call c).2) h

def Call.isStart : Call → Bool
  | start _ => true
  | _ => false

/-- No call of `start` is made while another goes on. -/
def Orderly : Host → List Call → Prop
  | _, [] => True
  | h, c :: cs => (c.isStart = true → h.server.serving = false) ∧ Orderly (h.call c).2 cs

end Host

namespace Server

variable {s : Server} {ε : Type} {net : Network ε} {e : ε} {p : Int}

def atPort (p : Int) (s : Server) : Server :=
  { s with port := p, bound := true, running := true, sweeping := s.sweeping || s.interval.isPositive }

def serve (s : Server) : Server := { s with serving := true }

theorem listen_of_bound (hb : s.bound = true) (net : Network ε) : s.listen net = (.ok (), s) := if_pos hb

theorem listen_of_error (hb : s.bound = false) (hnet : net s.host s.port = .error e) :
    s.listen net = (.error e, s) := by
  rw [listen, hb, hnet]
  rfl

theorem listen_of_granted (hb : s.bound = false) (hnet : net s.host s.port = .ok p) :
    s.listen net = (.ok (), s.atPort p) := by
  rw [listen, if_neg (by rw [hb]; exact Bool.false_ne_true), hnet]
  rfl

end Server

namespace Host

variable {h k : Host} {net : Network BindFailure} {e : BindFailure} {p : Int} {c : Call} {cs ds : List Call}

def opened (p : Int) (h : Host) : Host where
  server := h.server.atPort p
  listeners := h.listeners + 1
  sweeps := h.sweeps + h.server.interval.isPositive.toNat

def serve (h : Host) : Host := { h with server := h.server.serve }

inductive Binds (net : Network BindFailure) (h : Host) : Prop where
  | already (bound : h.server.bound = true) (listens : h.listen net = (.done, h))
      (starts : h.server.serving = false → h.listeners = 1 → h.start net = (.done, h.serve))
  | failed (e : BindFailure) (bound : h.server.bound = false)
      (answer : net h.server.host h.server.port = .error e) (listens : h.listen net = (.raised e, h))
      (starts : h.start net = (.raised e, h))
  | granted (p : Int) (bound : h.server.bound = false)
      (answer : net h.server.host h.server.port = .ok p) (listens : h.listen net = (.done, h.opened p))
      (starts : h.server.serving = false → h.start net = (.done, (h.opened p).serve))

theorem follow_of_bound (hb : h.server.bound = true) (s : Server) : h.follow s = { h with server := s } := if_pos hb

theorem follow_of_unbound (hb : h.server.bound = false) (s : Server) :
    h.follow s =
      { server := s, listeners := h.listeners + 1, sweeps := h.sweeps + s.interval.isPositive.toNat } :=
  if_neg (by rw [hb]; exact Bool.false_ne_true)

theorem binds (net : Network BindFailure) (h : Host) : h.Binds net := by
  cases hb : h.server.bound with
  | true =>
    have hlisten : h.server.listen net = (.ok (), h.server) := Server.listen_of_bound hb net
    refine .already hb ?_ fun hs hl => ?_
    · rw [listen, hlisten]
      exact Prod.ext rfl (follow_of_bound hb _)
    · simp only [start, Server.start, hlisten, follow_of_bound hb]
      exact if_neg (by rw [hs, hl]; decide)
  | false =>
    cases hnet : net h.server.host h.server.port with
    | error e =>
      have hlisten : h.server.listen net = (.error e, h.server) := Server.listen_of_error hb hnet
      refine .failed e hb hnet ?_ ?_
      · rw [listen, hlisten]
      · simp only [start, Server.start, hlisten]
    | ok p =>
      have hlisten : h.server.listen net = (.ok (), h.server.atPort p) := Server.listen_of_granted hb hnet
      refine .granted p hb hnet ?_ fun hs => ?_
      · rw [listen, hlisten]
        exact Prod.ext rfl (follow_of_unbound hb _)
      · simp only [start, Server.start, hlisten, follow_of_unbound hb, hs]
        rfl

theorem listen_of_bound (hb : h.server.bound = true) (net : Network BindFailure) : h.listen net = (.done, h) := by
  cases binds net h with
  | already bound listens => exact listens
  | failed e bound | granted p bound => cases bound.symm.trans hb

theorem listen_of_granted (hb : h.server.bound = false) (hnet : net h.server.host h.server.port = .ok p) :
    h.listen net = (.done, h.opened p) := by
  cases binds net h with
  | already bound => cases bound.symm.trans hb
  | failed e bound answer => cases answer.symm.trans hnet
  | granted q bound answer listens =>
    obtain rfl := Except.ok.inj (answer.symm.trans hnet)
    exact listens

theorem after_append (h : Host) (cs ds : List Call) : h.after (cs ++ ds) = (h.after cs).after ds := List.foldl_append

theorem meanwhile_eq (h : Host) (e : Server.Event) :
    h.meanwhile e = h ∨ h.meanwhile e = { h with server := h.server.step e } := by
  unfold meanwhile
  split
  · exact .inr rfl
  · exact .inl rfl

theorem meanwhile_of_unread (hunread : h.server.unread = []) (e : Server.Event) :
    h.meanwhile e = { h with server := h.server.step e } := by
  refine if_pos ?_
  cases e with
  | receive now id data =>
    rw [Server.hears, hunread]
    rfl
  | accept | disconnect | sweep => rfl

structure InStep (h : Host) : Prop where
  running : h.server.running = h.server.bound
  listeners : h.listeners = h.server.bound.toNat
  sweeping : h.server.sweeping = (h.server.bound && h.server.interval.isPositive)
  sweeps : h.sweeps = h.server.sweeping.toNat
  serving : h.server.serving = true → h.server.bound = true
  registered : h.server.Registered

namespace InStep

theorem bound_iff (hh : h.InStep) : h.server.bound = true ↔ h.listeners = 1 := by
  rw [hh.listeners, Bool.toNat_eq_one]

theorem unbound_iff (hh : h.InStep) : h.server.bound = false ↔ h.listeners = 0 := by
  rw [hh.listeners, Bool.toNat_eq_zero]

theorem sweeping_of_unbound (hh : h.InStep) (hb : h.server.bound = false) : h.server.sweeping = false := by
  rw [hh.sweeping, hb, Bool.false_and]

theorem opened (hh : h.InStep) (hb : h.server.bound = false) (p : Int) : (h.opened p).InStep := by
  have hsweeping : h.server.sweeping = false := hh.sweeping_of_unbound hb
  refine ⟨rfl, ?_, ?_, ?_, fun _ => rfl, ⟨hh.registered.nodup, hh.registered.lt_opened⟩⟩
  · show h.listeners + 1 = 1
    rw [hh.unbound_iff.mp hb]
  · show (h.server.sweeping || _) = _
    rw [hsweeping, Bool.false_or]
    rfl
  · show h.sweeps + _ = (h.server.sweeping || h.server.interval.isPositive).toNat
    rw [hh.sweeps, hsweeping, Bool.false_or]
    exact Nat.zero_add _

theorem serve (hh : h.InStep) (hb : h.server.bound = true) : h.serve.InStep :=
  ⟨hh.running, hh.listeners, hh.sweeping, hh.sweeps, fun _ => hb, ⟨hh.registered.nodup, hh.registered.lt_opened⟩⟩

theorem listen (hh : h.InStep) (net : Network BindFailure) : (h.listen net).2.InStep := by
  cases binds net h with
  | already bound listens | failed e bound answer listens =>
    rw [listens]
    exact hh
  | granted p bound answer listens =>
    rw [listens]
    exact hh.opened bound p

theorem start (hh : h.InStep) (hs : h.server.serving = false) (net : Network BindFailure) :
    (h.start net).2.InStep := by
  cases binds net h with
  | already bound listens starts =>
    rw [starts hs (hh.bound_iff.mp bound)]
    exact hh.serve bound
  | failed e bound answer listens starts =>
    rw [starts]
    exact hh
  | granted p bound answer listens starts =>
    rw [starts hs]
    exact (hh.opened bound p).serve rfl

theorem start_of_serving (hh : h.InStep) (hs : h.server.serving = true) (net : Network BindFailure) :
    h.start net = (.occupied, { h with server := h.server.leave, listeners := 0 }) := by
  have hb : h.server.bound = true := hh.serving hs
  simp only [Host.start, Server.start, Server.listen_of_bound hb net, follow_of_bound hb, hs, hh.bound_iff.mp hb]
  rfl

section Stop

variable (waiting : Bindings Nat (List Bytes))

theorem stop_of_bound (hh : h.InStep) (hb : h.server.bound = true) :
    h.stop waiting = { server := h.server.letGo waiting } := by
  have hlisteners : h.listeners - h.server.bound.toNat = 0 := by rw [hh.listeners, Nat.sub_self]
  have hsweeps : h.sweeps - h.server.sweeping.toNat = 0 := by rw [hh.sweeps, Nat.sub_self]
  rw [stop, hlisteners, hsweeps, Server.stop_of_bound hb]

theorem stop_of_unbound (hh : h.InStep) (hb : h.server.bound = false) : h.stop waiting = h := by
  have hsweeping : h.server.sweeping = false := hh.sweeping_of_unbound hb
  rw [stop, Server.stop_of_idle hb hsweeping, hb, hsweeping]
  rfl

theorem stop (hh : h.InStep) : (h.stop waiting).InStep := by
  cases hb : h.server.bound with
  | true =>
    rw [hh.stop_of_bound waiting hb]
    exact ⟨rfl, rfl, rfl, rfl, nofun, Server.registered_letGo hh.registered waiting⟩
  | false =>
    rw [hh.stop_of_unbound waiting hb]
    exact hh

end Stop

theorem of_sameSocket (hh : h.InStep) {s : Server} (hsame : h.server.SameSocket s) (hs : s.Registered) :
    ({ h with server := s } : Host).InStep := by
  refine ⟨?_, ?_, ?_, ?_, fun hserving => ?_, hs⟩
  · rw [hsame.running, hsame.bound, hh.running]
  · rw [hsame.bound]
    exact hh.listeners
  · rw [hsame.sweeping, hsame.bound, hsame.interval, hh.sweeping]
  · rw [hsame.sweeping]
    exact hh.sweeps
  · rw [hsame.bound]
    exact hh.serving (hsame.serving.symm.trans hserving)

theorem meanwhile (hh : h.InStep) (e : Server.Event) : (h.meanwhile e).InStep := by
  rcases h.meanwhile_eq e with heq | heq
  · rw [heq]
    exact hh
  · rw [heq]
    exact hh.of_sameSocket (h.server.sameSocket_step e) (Server.registered_step hh.registered e)

theorem call (hh : h.InStep) (hc : c.isStart = true → h.server.serving = false) : (h.call c).2.InStep := by
  cases c with
  | listen net => exact hh.listen net
  | start net => exact hh.start (hc rfl) net
  | stop waiting => exact hh.stop waiting
  | resume now id =>
    exact hh.of_sameSocket (h.server.sameSocket_resume now id) (Server.registered_resume hh.registered now id)
  | meanwhile e => exact hh.meanwhile e

theorem after (hh : h.InStep) (hcs : Orderly h cs) : (h.after cs).InStep := by
  induction cs generalizing h with
  | nil => exact hh
  | cons c cs ih => exact ih (hh.call hcs.1) hcs.2

end InStep

def Call.network? : Call → Option (Network BindFailure)
  | listen net => some net
  | start net => some net
  | _ => none

inductive Effect (s : Server) : Call → Server → Prop where
  | none (c : Call) : Effect s c s
  | bound {c : Call} {net : Network BindFailure} {p : Int} (asks : c.network? = some net)
      (answer : net s.host s.port = .ok p) : Effect s c (s.atPort p)
  | serves {c : Call} {t : Server} (listens : Effect s c t) (same : c.isStart = true) : Effect s c t.serve
  | left (net : Network BindFailure) : Effect s (.start net) s.leave
  | closed (waiting : Bindings Nat (List Bytes)) : Effect s (.stop waiting) (s.letGo waiting)
  | resumed (now : Instant) (id : Nat) : Effect s (.resume now id) (s.resume now id).2
  | met (e : Server.Event) : Effect s (.meanwhile e) (s.step e)

theorem InStep.effect (hh : h.InStep) (c : Call) : Effect h.server c (h.call c).2.server := by
  cases c with
  | listen net =>
    rw [Host.call]
    cases binds net h with
    | already bound listens | failed e bound answer listens =>
      rw [listens]
      exact .none _
    | granted p bound answer listens =>
      rw [listens]
      exact .bound rfl answer
  | start net =>
    rw [Host.call]
    cases hs : h.server.serving with
    | true =>
      -- The second call closes the socket without letting go of it, so it stays bound and listens no more.
      rw [hh.start_of_serving hs]
      exact .left net
    | false =>
      cases binds net h with
      | already bound listens starts =>
        rw [starts hs (hh.bound_iff.mp bound)]
        exact .serves (.none _) rfl
      | failed e bound answer listens starts =>
        rw [starts]
        exact .none _
      | granted p bound answer listens starts =>
        rw [starts hs]
        exact .serves (.bound rfl answer) rfl
  | stop waiting =>
    rw [Host.call]
    cases hb : h.server.bound with
    | true =>
      rw [hh.stop_of_bound waiting hb]
      exact .closed waiting
    | false =>
      rw [hh.stop_of_unbound waiting hb]
      exact .none _
  | resume now id => exact .resumed now id
  | meanwhile e =>
    rw [Host.call]
    rcases h.meanwhile_eq e with heq | heq
    · rw [heq]
      exact .none _
    · rw [heq]
      exact .met e

end Host

end RespStore
