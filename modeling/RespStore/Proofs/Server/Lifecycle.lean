import RespStore.Proofs.Server.Host

/-! What holds of a server however often its socket has been bound and let go. The flag says whether a socket listens,
there is one sweep as long as it does, a port that has been found is kept, and the contents are never touched. When the
socket is closed the connections are, and none outlasts what its handler had still to do. -/

namespace RespStore

def BindFailure.isSystem : BindFailure → Bool
  | system _ => true
  | invalid _ => false

def IsPort (port : Int) : Prop := 0 ≤ port ∧ port ≤ 65535

instance (port : Int) : Decidable (IsPort port) := inferInstanceAs (Decidable (0 ≤ port ∧ port ≤ 65535))

def Network.Honest {ε : Type} (net : Network ε) : Prop :=
  ∀ host port p, net host port = .ok p → p ≠ 0 ∧ (port ≠ 0 → p = port)

/-- As sockets are documented: a socket has a port, and at an address what goes wrong is an error of the system.
What is a host at all is for the resolver of names to say. -/
structure Network.Documented (isHost : Text → Prop) (net : Network BindFailure) : Prop where
  port : ∀ host port p, net host port = .ok p → IsPort p
  failure : ∀ host port e, isHost host → IsPort port → net host port = .error e → e.isSystem = true

def Server.Addressed (isHost : Text → Prop) (s : Server) : Prop := isHost s.host ∧ IsPort s.port

namespace Host

variable {h k : Host} {net : Network BindFailure} {c : Call} {cs : List Call} {s t : Server} {id n : Nat}
  {isHost : Text → Prop}

def Call.isLifecycle : Call → Bool
  | listen _ | start _ | stop _ => true
  | resume _ _ | meanwhile _ => false

theorem Effect.keyspace (he : Effect s c t) (hc : c.isLifecycle = true) : t.keyspace = s.keyspace := by
  induction he with
  | none | bound | left => rfl
  | serves listens same ih => exact ih hc
  | closed waiting => exact s.letGo_keyspace waiting
  | resumed | met => cases hc

section Address

theorem Effect.host (he : Effect s c t) : t.host = s.host := by
  induction he with
  | none | bound | left => rfl
  | serves listens same ih => exact ih
  | closed waiting => exact s.letGo_host waiting
  | resumed now id => exact (s.sameSocket_resume now id).host
  | met e => exact (s.sameSocket_step e).host

theorem Effect.port_eq (he : Effect s c t) :
    t.port = s.port ∨ ∃ net, c.network? = some net ∧ net s.host s.port = .ok t.port := by
  induction he with
  | none | left => exact .inl rfl
  | bound asks answer => exact .inr ⟨_, asks, answer⟩
  | serves listens same ih => exact ih
  | closed waiting => exact .inl (s.letGo_port waiting)
  | resumed now id => exact .inl (s.sameSocket_resume now id).port
  | met e => exact .inl (s.sameSocket_step e).port

def Call.Honest (c : Call) : Prop := ∀ net, c.network? = some net → net.Honest

def Call.Documented (isHost : Text → Prop) (c : Call) : Prop := ∀ net, c.network? = some net → net.Documented isHost

theorem Effect.port (he : Effect s c t) (hc : c.Honest) (hp : s.port ≠ 0) : t.port = s.port := by
  rcases he.port_eq with heq | ⟨net, asks, answer⟩
  · exact heq
  · exact (hc net asks _ _ _ answer).2 hp

theorem Effect.addressed (he : Effect s c t) (hc : c.Documented isHost) (hs : s.Addressed isHost) :
    t.Addressed isHost := by
  refine ⟨by rw [he.host]; exact hs.1, ?_⟩
  rcases he.port_eq with heq | ⟨net, asks, answer⟩
  · rw [heq]
    exact hs.2
  · exact (hc net asks).port _ _ _ answer

def Numbered (s : Server) : Prop := s.bound = true → s.port ≠ 0

theorem Numbered.of_sameSocket (hs : Numbered s) (hsame : s.SameSocket t) : Numbered t := by
  intro hb
  rw [hsame.port]
  exact hs (hsame.bound.symm.trans hb)

end Address

section Closed

def Call.resumes (id : Nat) : Call → Bool
  | resume _ j => j = id
  | _ => false

/-- Every handler that was left has gone on often enough to have read what it had to, and then the end of it. Then a
stop has settled; a client that takes nothing of what it is sent keeps its handler waiting, and there is no such time. -/
def Finished (h : Host) (cs : List Call) : Prop :=
  ∀ id data, h.server.isServing id = true → h.server.unread.find? id = some data →
    data.length < cs.countP fun c => c.resumes id

theorem Effect.due (he : Effect s c t) (hc : c.resumes id = false) (hs : s.Due id n) : t.Due id n := by
  induction he with
  | none => exact hs
  | bound | left => exact hs.congr (Nat.le_refl _) (fun h => h) fun _ h => h
  | serves listens same ih => exact (ih hc).congr (Nat.le_refl _) (fun h => h) fun _ h => h
  | closed waiting => exact hs.letGo waiting
  | resumed now j => exact hs.resume_of_ne (of_decide_eq_false hc) now
  | met e => exact hs.step e

theorem InStep.due (hh : h.InStep) (hs : h.server.Due id (n + (c.resumes id).toNat)) :
    (h.call c).2.server.Due id n := by
  cases hc : c.resumes id with
  | false =>
    rw [hc] at hs
    exact (hh.effect c).due hc hs
  | true =>
    rw [hc] at hs
    cases c with
    | resume now j =>
      obtain rfl : j = id := of_decide_eq_true hc
      exact hs.resume now
    | _ => cases hc

theorem due_after (hh : h.InStep) (hcs : Orderly h cs)
    (hs : h.server.Due id (cs.countP fun c => c.resumes id)) : (h.after cs).server.Due id 0 := by
  induction cs generalizing h with
  | nil => exact hs
  | cons c cs ih =>
    have hcount : (c :: cs).countP (fun c => c.resumes id) =
        cs.countP (fun c => c.resumes id) + (c.resumes id).toNat := by
      rw [List.countP_cons]
      cases c.resumes id <;> rfl
    rw [hcount] at hs
    exact ih (hh.call hcs.1) hcs.2 (hh.due hs)

variable {waiting : Bindings Nat (List Bytes)}

theorem InStep.stays (hh : h.InStep) (hl : h.listeners = 1)
    (hs : (h.stop waiting).server.isServing id = true) :
    ∃ data, (h.stop waiting).server.unread.find? id = some data ∧
      (h.server.unread.find? id = some data ∨ waiting.find? id = some data) := by
  rw [hh.stop_of_bound waiting (hh.bound_iff.mpr hl)] at hs ⊢
  exact Server.letGo_of_serving hs

theorem InStep.opened_stop (hh : h.InStep) (waiting : Bindings Nat (List Bytes)) :
    (h.stop waiting).server.opened = h.server.opened := by
  cases hb : h.server.bound with
  | true => rw [hh.stop_of_bound waiting hb, Server.letGo_opened]
  | false => rw [hh.stop_of_unbound waiting hb]

theorem InStep.left (hh : h.InStep) (hl : h.listeners = 1) (hcs : Orderly (h.stop waiting) cs)
    (hfinished : (h.stop waiting).Finished cs) (hid : id < h.server.opened) :
    ((h.stop waiting).after cs).server.isServing id = false := by
  have hdue : (h.stop waiting).server.Due id (cs.countP fun c => c.resumes id) := by
    refine ⟨by rw [hh.opened_stop]; exact hid, fun hs => ?_⟩
    obtain ⟨data, hdata, -⟩ := hh.stays hl hs
    exact ⟨data, hdata, hfinished id data hs hdata⟩
  exact (due_after (hh.stop waiting) hcs hdue).not_isServing

theorem InStep.empty (hh : h.InStep) (hl : h.listeners = 1) (hcs : Orderly (h.stop waiting) cs)
    (hfinished : (h.stop waiting).Finished cs)
    (hopened : ((h.stop waiting).after cs).server.opened = h.server.opened) :
    ((h.stop waiting).after cs).server.connections = [] := by
  have hregistered : ((h.stop waiting).after cs).server.Registered := ((hh.stop waiting).after hcs).registered
  have hkeys : ((h.stop waiting).after cs).server.connections.keys = [] := by
    refine List.eq_nil_iff_forall_not_mem.mpr fun id hid => ?_
    have hlt : id < h.server.opened := hopened ▸ hregistered.lt_opened id hid
    exact Bool.false_ne_true ((hh.left hl hcs hfinished hlt).symm.trans (Server.isServing_iff.mpr hid))
  exact List.map_eq_nil_iff.mp hkeys

end Closed

namespace InStep

theorem failed {e : BindFailure} (hh : h.InStep) (hl : h.listeners = 0)
    (hnet : net h.server.host h.server.port = .error e) :
    h.listen net = (.raised e, h) ∧ h.start net = (.raised e, h) := by
  cases binds net h with
  | already bound => cases bound.symm.trans (hh.unbound_iff.mpr hl)
  | failed e' bound answer listens starts =>
    obtain rfl := Except.error.inj (answer.symm.trans hnet)
    exact ⟨listens, starts⟩
  | granted p bound answer => cases answer.symm.trans hnet

theorem serves (hh : h.InStep) (hs : h.server.serving = false) (hl : h.listen net = (.done, k)) :
    h.start net = (.done, k.serve) := by
  cases binds net h with
  | already bound listens starts =>
    obtain rfl := (Prod.mk.inj (listens.symm.trans hl)).2
    exact starts hs (hh.bound_iff.mp bound)
  | failed e bound answer listens => cases listens.symm.trans hl
  | granted p bound answer listens starts =>
    obtain rfl := (Prod.mk.inj (listens.symm.trans hl)).2
    exact starts hs

end InStep

end Host

namespace Background

inductive Call where
  | start (net : Network BindFailure)
  | stop
  | meanwhile (e : Server.Event)

def step (b : Background) : Call → Background
  | .start net => (b.start net).2
  | .stop => b.stop
  | .meanwhile e => { b with server := b.server.step e }

def after (b : Background) (cs : List Call) : Background := cs.foldl step b

def Call.within : Call → Host.Call
  | start net => .listen net
  | stop => .stop []
  | meanwhile e => .meanwhile e

variable {b : Background} {h : Host} {net : Network BindFailure} {e : BindFailure} {s : Server}

theorem start_of_alive (hb : b.alive = true) (net : Network BindFailure) : b.start net = (.ok (), b) := if_pos hb

theorem start_of_listening (hb : b.alive = false) (hs : b.server.listen net = (.ok (), s)) :
    b.start net = (.ok (), ⟨s, true⟩) := by
  rw [start, if_neg (by rw [hb]; exact Bool.false_ne_true), hs]

theorem start_of_error (hb : b.alive = false) (hs : b.server.listen net = (.error e, b.server)) :
    b.start net = (.error e, b) := by
  rw [start, if_neg (by rw [hb]; exact Bool.false_ne_true), hs, ← hb]

structure HostedBy (b : Background) (h : Host) : Prop where
  server : b.server = h.server
  alive : b.alive = h.server.bound
  inStep : h.InStep
  unread : h.server.unread = []

inductive Starts (net : Network BindFailure) (b : Background) (h : Host) : Prop where
  | already (starts : b.start net = (.ok (), b)) (listens : h.listen net = (.done, h))
  | failed (e : BindFailure) (starts : b.start net = (.error e, b)) (listens : h.listen net = (.raised e, h))
  | granted (p : Int) (bound : h.server.bound = false) (starts : b.start net = (.ok (), ⟨h.server.atPort p, true⟩))
      (listens : h.listen net = (.done, h.opened p))

namespace HostedBy

theorem starts (hh : b.HostedBy h) (net : Network BindFailure) : b.Starts net h := by
  cases Host.binds net h with
  | already bound listens => exact .already (start_of_alive (hh.alive.trans bound) net) listens
  | failed e bound answer listens =>
    have hlisten : b.server.listen net = (.error e, b.server) := by
      rw [hh.server]
      exact Server.listen_of_error bound answer
    exact .failed e (start_of_error (hh.alive.trans bound) hlisten) listens
  | granted p bound answer listens =>
    have hlisten : b.server.listen net = (.ok (), h.server.atPort p) := by
      rw [hh.server]
      exact Server.listen_of_granted bound answer
    exact .granted p bound (start_of_listening (hh.alive.trans bound) hlisten) listens

theorem start (hh : b.HostedBy h) (net : Network BindFailure) : (b.start net).2.HostedBy (h.listen net).2 := by
  cases hh.starts net with
  | already starts listens | failed e starts listens =>
    rw [starts, listens]
    exact hh
  | granted p bound starts listens =>
    rw [starts, listens]
    exact ⟨rfl, rfl, hh.inStep.opened bound p, hh.unread⟩

theorem stop (hh : b.HostedBy h) : b.stop.HostedBy (h.stop []) := by
  cases hb : h.server.bound with
  | true =>
    have hstop : b.stop = ⟨h.server.letGo [], false⟩ := by
      rw [Background.stop, if_pos (hh.alive.trans hb), hh.server, Server.stop_of_bound hb]
    refine ⟨?_, ?_, hh.inStep.stop [], ?_⟩
    · rw [hstop, hh.inStep.stop_of_bound [] hb]
    · rw [hstop, hh.inStep.stop_of_bound [] hb]
      rfl
    · rw [hh.inStep.stop_of_bound [] hb]
      exact Server.unread_letGo_of_nil hh.unread
  | false =>
    have hstop : b.stop = b := if_neg (by rw [hh.alive, hb]; exact Bool.false_ne_true)
    rw [hstop, hh.inStep.stop_of_unbound [] hb]
    exact hh

theorem step (hh : b.HostedBy h) (c : Call) : (b.step c).HostedBy (h.call c.within).2 := by
  cases c with
  | start net => exact hh.start net
  | stop => exact hh.stop
  | meanwhile e =>
    have hmeanwhile : h.meanwhile e = { h with server := h.server.step e } := Host.meanwhile_of_unread hh.unread e
    have hserver : b.server.step e = h.server.step e := by rw [hh.server]
    refine ⟨?_, ?_, hh.inStep.meanwhile e, ?_⟩
    · rw [Call.within, Host.call, hmeanwhile]
      exact hserver
    · rw [Call.within, Host.call, hmeanwhile]
      exact hh.alive.trans (h.server.sameSocket_step e).bound.symm
    · rw [Call.within, Host.call, hmeanwhile]
      exact (h.server.unread_step e).trans hh.unread

theorem after (hh : b.HostedBy h) (cs : List Call) : (b.after cs).HostedBy (h.after (cs.map Call.within)) := by
  induction cs generalizing b h with
  | nil => exact hh
  | cons c cs ih => exact ih (hh.step c)

end HostedBy

end Background

namespace Host

end Host

end RespStore
