import RespStore.Command.Dispatch
import RespStore.Proofs.Keyspace.Live

/-! A keyspace in the course of time: requests, steps of the clock and sweeps, in any order. -/

namespace RespStore

structure Moment where
  now : Instant
  keyspace : Keyspace

namespace Moment

inductive Event where
  | request (r : Request)
  | clock (later : Instant)
  | sweep

def Event.isSweep : Event → Bool
  | sweep => true
  | _ => false

def withoutSweeps (es : List Event) : List Event := es.filter (!·.isSweep)

/-- Whether no step of the clock goes back, or to no time at all. -/
def Forward : Instant → List Event → Prop
  | _, [] => True
  | now, .request _ :: es => Forward now es
  | now, .clock later :: es => now.le later = true ∧ Forward later es
  | now, .sweep :: es => Forward now es

def step (m : Moment) : Event → Moment
  | .request r => { m with keyspace := (dispatch m.now m.keyspace r).2 }
  | .clock later => { m with now := later }
  | .sweep => { m with keyspace := (m.keyspace.sweep m.now).2 }

def after (m : Moment) (es : List Event) : Moment := es.foldl step m

def replies : Moment → List Event → List (Request × Except Fault Reply)
  | _, [] => []
  | m, .request r :: es => (r, (dispatch m.now m.keyspace r).1) :: (m.step (.request r)).replies es
  | m, .clock later :: es => (m.step (.clock later)).replies es
  | m, .sweep :: es => (m.step .sweep).replies es

def live (m : Moment) : Keyspace := m.keyspace.liveEntries m.now

theorem forward_append {now : Instant} {m : Moment} {es fs : List Event} (hm : m.now = now)
    (h : Forward now (es ++ fs)) : Forward now es ∧ Forward (m.after es).now fs := by
  induction es generalizing now m with
  | nil => exact ⟨trivial, hm ▸ h⟩
  | cons e es ih =>
    cases e with
    | request r => exact ih (m := m.step (.request r)) hm h
    | clock later =>
      obtain ⟨hl, h⟩ := h
      have hes := ih (m := m.step (.clock later)) rfl h
      exact ⟨⟨hl, hes.1⟩, hes.2⟩
    | sweep => exact ih (m := m.step .sweep) hm h

structure Kept (I : Moment → Prop) : Prop where
  request : ∀ {m : Moment}, I m → ∀ r, I (m.step (.request r))
  clock : ∀ {m : Moment} {later : Instant}, I m → m.now.le later = true → I (m.step (.clock later))
  sweep : ∀ {m : Moment}, I m → I (m.step .sweep)

theorem Kept.after {I : Moment → Prop} (hI : Kept I) {m : Moment} (hm : I m) {es : List Event}
    (hes : Forward m.now es) : I (m.after es) := by
  induction es generalizing m with
  | nil => exact hm
  | cons e es ih =>
    cases e with
    | request r => exact ih (hI.request hm r) hes
    | clock later => exact ih (hI.clock hm hes.1) hes.2
    | sweep => exact ih (hI.sweep hm) hes

end Moment

end RespStore
