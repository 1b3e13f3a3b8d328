import RespStore.Proofs.Server.Exchange
import RespStore.Server.Basic

/-! A server in the course of time: connections are opened, bytes arrive and streams end in any order, with
sweeps in between. What one event does to one connection is one of four things. -/

namespace RespStore.Server

open Wire (Decoder)

inductive Event where
  | accept
  | receive (now : Instant) (id : Nat) (data : Bytes)
  | disconnect (id : Nat)
  | sweep (now : Instant)

def Event.ends (id : Nat) : Event → Bool
  | receive _ j data => j = id && data.isEmpty
  | disconnect j => j = id
  | _ => false

def step (s : Server) : Event → Server
  | .accept => s.accept.2
  | .receive now id data => (s.receive now id data).2
  | .disconnect id => s.disconnect id
  | .sweep now => s.sweep now

def output (id : Nat) (s : Server) : Event → Bytes
  | .receive now j data => if j = id then (s.receive now j data).1 else []
  | _ => []

def input (id : Nat) (s : Server) : Event → Bytes
  | .receive _ j data => if j = id ∧ s.isServing id then data else []
  | _ => []

def actions (s : Server) : Event → List Action
  | .receive now id data =>
    match s.connections.find? id with
    | none => []
    | some d => if data.isEmpty then [] else (d.feed data).drain.actions id now
  | .sweep now => [.sweep now]
  | _ => []

def after (s : Server) (es : List Event) : Server := es.foldl step s

def written (id : Nat) : Server → List Event → Bytes
  | _, [] => []
  | s, e :: es => s.output id e ++ written id (s.step e) es

def sent (id : Nat) : Server → List Event → Bytes
  | _, [] => []
  | s, e :: es => s.input id e ++ sent id (s.step e) es

def ended (id : Nat) : Server → List Event → Bool
  | _, [] => false
  | s, e :: es => (id < s.opened && e.ends id) || ended id (s.step e) es

/-- The requests of all connections in the order of their execution, and the sweeps between them. -/
def history : Server → List Event → List Action
  | _, [] => []
  | s, e :: es => s.actions e ++ history (s.step e) es

variable {s : Server} {id : Nat} {d : Decoder} {now : Instant} {data : Bytes}

@[simp] theorem after_nil (s : Server) : s.after [] = s := rfl

@[simp] theorem after_cons (s : Server) (e : Event) (es : List Event) :
    s.after (e :: es) = (s.step e).after es := rfl

theorem read?_of_serving (hd : s.connections.find? id = some d) (hdata : data ≠ []) :
    s.read? now id data = some (Exchange.run now s.requests [] (d.feed data) s.keyspace) := by
  have hempty : data.isEmpty = false := by simpa using hdata
  simp only [read?, hd, hempty, Bool.false_eq_true, if_false]

theorem receive_of_serving (hd : s.connections.find? id = some d) (hdata : data ≠ []) :
    s.receive now id data =
      ((Exchange.run now s.requests [] (d.feed data) s.keyspace).toBytes,
        s.settle id (Exchange.run now s.requests [] (d.feed data) s.keyspace)) := by
  rw [receive, read?_of_serving hd hdata]

theorem actions_of_serving (hd : s.connections.find? id = some d) (hdata : data ≠ []) :
    s.actions (.receive now id data) = (d.feed data).drain.actions id now := by
  have hempty : data.isEmpty = false := by simpa using hdata
  simp only [actions, hd, hempty, Bool.false_eq_true, if_false]

theorem idle_or_serving (s : Server) (id : Nat) (data : Bytes) :
    (s.connections.find? id = none ∨ data = []) ∨ ∃ d, s.connections.find? id = some d ∧ data ≠ [] := by
  cases hd : s.connections.find? id with
  | none => exact .inl (.inl rfl)
  | some d =>
    by_cases hdata : data = []
    · exact .inl (.inr hdata)
    · exact .inr ⟨d, rfl, hdata⟩

theorem read?_of_idle (h : s.connections.find? id = none ∨ data = []) : s.read? now id data = none := by
  rcases h with h | rfl
  · simp only [read?, h]
  · cases hd : s.connections.find? id <;> simp [read?, hd]

theorem receive_of_idle (h : s.connections.find? id = none ∨ data = []) :
    s.receive now id data = ([], s.disconnect id) := by
  rw [receive, read?_of_idle h]

theorem actions_of_idle (h : s.connections.find? id = none ∨ data = []) :
    s.actions (.receive now id data) = [] := by
  rcases h with h | rfl
  · simp only [actions, h]
  · cases hd : s.connections.find? id <;> simp [actions, hd]

theorem keyspace_step (s : Server) (e : Event) :
    (s.step e).keyspace = (s.keyspace.play (s.actions e)).2 := by
  cases e with
  | accept => rfl
  | disconnect id => rfl
  | sweep now => rfl
  | receive now id data =>
    rcases s.idle_or_serving id data with h | ⟨d, hd, hdata⟩
    · rw [step, receive_of_idle h, actions_of_idle h]
      rfl
    · rw [step, receive_of_serving hd hdata, actions_of_serving hd hdata]
      exact Exchange.run_plays.keyspace

theorem keyspace_after (s : Server) (es : List Event) :
    (s.after es).keyspace = (s.keyspace.play (s.history es)).2 := by
  induction es generalizing s with
  | nil => rfl
  | cons e es ih => rw [after_cons, ih, history, Keyspace.play_append, ← keyspace_step]

end RespStore.Server
