import RespStore.Proofs.Command.Contents
import RespStore.Proofs.Server.Timeline
import RespStore.Proofs.Wire.Reach

/-! A server that only clients have written to. Nothing that it stores is longer than a bulk may be, whichever
connections its requests came from and however their bytes were cut. -/

namespace RespStore

open Wire (Decoder Decoding Limits)

def Bytes.IsShort (b : Bytes) : Prop := b.length ≤ ({} : Limits).bulk

def Action.IsShort : Action → Prop
  | .execute _ _ r => ∀ b ∈ r.args, Bytes.IsShort b
  | .sweep _ => True

theorem Keyspace.Holds.play {s : Keyspace} (hs : s.Holds Bytes.IsShort) {as : List Action}
    (has : ∀ a ∈ as, a.IsShort) : (s.play as).2.Holds Bytes.IsShort := by
  induction as generalizing s with
  | nil => exact hs
  | cons a as ih =>
    have hrest : ∀ a' ∈ as, a'.IsShort := fun a' ha' => has a' (List.mem_cons_of_mem a ha')
    have hfirst : a.IsShort := has a List.mem_cons_self
    cases a with
    | execute id now r => exact ih (hs.request hfirst) hrest
    | sweep now => exact ih hs.sweep hrest

theorem isShort_of_mem_actions {x : Decoding} (hx : Decoder.Moderates x) {id : Nat} {now : Instant} :
    ∀ a ∈ x.actions id now, a.IsShort := by
  intro a ha
  obtain ⟨r, hr, rfl⟩ := List.mem_map.mp ha
  have hmem : r ∈ x.requests := by
    generalize x.requests = rs at hr ⊢
    induction rs with
    | nil => exact hr
    | cons q rs ih =>
      rw [upToQuit] at hr
      split at hr
      · exact List.mem_cons.mpr (.inl (List.mem_singleton.mp hr))
      · rcases List.mem_cons.mp hr with rfl | hr
        · exact List.mem_cons_self
        · exact List.mem_cons_of_mem q (ih hr)
  exact hx.requests r hmem

namespace Server

variable {s : Server} {e : Event} {es : List Event}

def Event.IsRead : Event → Prop
  | .receive _ _ data => data.length ≤ readSize
  | _ => True

instance : (e : Event) → Decidable e.IsRead
  | .receive _ _ data => inferInstanceAs (Decidable (data.length ≤ readSize))
  | .accept => inferInstanceAs (Decidable True)
  | .disconnect _ => inferInstanceAs (Decidable True)
  | .sweep _ => inferInstanceAs (Decidable True)

structure Tidy (s : Server) : Prop where
  idle : ∀ {id d}, s.connections.find? id = some d → d.Idle
  holds : s.keyspace.Holds Bytes.IsShort

theorem Tidy.actions (hs : s.Tidy) (he : e.IsRead) : ∀ a ∈ s.actions e, a.IsShort := by
  cases e with
  | accept => exact fun a ha => by cases ha
  | disconnect id => exact fun a ha => by cases ha
  | sweep now =>
    intro a ha
    rw [List.mem_singleton.mp ha]
    trivial
  | receive now id data =>
    rcases s.idle_or_serving id data with h | ⟨d, hd, hdata⟩
    · rw [actions_of_idle h]
      exact fun a ha => by cases ha
    · rw [actions_of_serving hd hdata]
      exact isShort_of_mem_actions ((hs.idle hd).drain_moderates he)

theorem Tidy.idle_step (hs : s.Tidy) (he : e.IsRead) {id : Nat} {d : Decoder}
    (hd : (s.step e).connections.find? id = some d) : d.Idle := by
  have herase : ∀ {j}, (s.connections.erase j).find? id = some d → d.Idle := by
    intro j h
    by_cases hj : id = j
    · rw [hj, Bindings.find?_erase_self] at h
      cases h
    · rw [Bindings.find?_erase_of_ne hj] at h
      exact hs.idle h
  have hput : ∀ {j d'}, d'.Idle → (s.connections.put j d').find? id = some d → d.Idle := by
    intro j d' hd' h
    by_cases hj : id = j
    · rw [hj, Bindings.find?_put_self] at h
      exact Option.some.inj h ▸ hd'
    · rw [Bindings.find?_put_of_ne hj] at h
      exact hs.idle h
  cases e with
  | accept => exact hput Decoder.idle_fresh hd
  | disconnect j => exact herase hd
  | sweep now => exact hs.idle hd
  | receive now j data =>
    rcases s.idle_or_serving j data with h | ⟨d', hd', hdata⟩
    · rw [step, receive_of_idle h] at hd
      exact herase hd
    · have hplays : (Exchange.run now s.requests [] (d'.feed data) s.keyspace).Plays j now s.requests [] s.keyspace
          (d'.feed data).drain := Exchange.run_plays
      rw [step, receive_of_serving hd' hdata, settle] at hd
      dsimp only at hd
      split at hd
      · rename_i hw
        rw [hplays.ending] at hw
        rw [hplays.decoder hw] at hd
        have hmoderates := (hs.idle hd').drain_moderates he
        exact hput (hmoderates.idle (Decoding.ending_eq_waiting.mp hw).2) hd
      · exact herase hd

theorem Tidy.step (hs : s.Tidy) (he : e.IsRead) : (s.step e).Tidy where
  idle hd := hs.idle_step he hd
  holds := by
    rw [keyspace_step]
    exact hs.holds.play (hs.actions he)

theorem Tidy.after (hs : s.Tidy) (hes : ∀ e ∈ es, e.IsRead) : (s.after es).Tidy := by
  induction es generalizing s with
  | nil => exact hs
  | cons e es ih =>
    exact ih (hs.step (hes e List.mem_cons_self)) fun e' he' => hes e' (List.mem_cons_of_mem e he')

theorem Tidy.history (hs : s.Tidy) (hes : ∀ e ∈ es, e.IsRead) : ∀ a ∈ s.history es, a.IsShort := by
  induction es generalizing s with
  | nil => exact fun a ha => by cases ha
  | cons e es ih =>
    have he : e.IsRead := hes e List.mem_cons_self
    intro a ha
    rcases List.mem_append.mp ha with ha | ha
    · exact hs.actions he a ha
    · exact ih (hs.step he) (fun e' he' => hes e' (List.mem_cons_of_mem e he')) a ha

end Server

end RespStore
