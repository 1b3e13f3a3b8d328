import RespStore.Proofs.Command.Timeline
import RespStore.Proofs.Command.Touch
import RespStore.Proofs.Keyspace.SameLive

/-! Sweeps go unnoticed. Where two keyspaces have the same live entries, every request comes to the same in
both and leaves them with the same live entries; a sweep changes no live entry. -/

namespace RespStore

open Keyspace Dispatch

/-- The same, or for KEYS the same list in another order. -/
def SameReply {ε : Type} (c : Option Command) (x y : Except ε Reply) : Prop :=
  x = y ∨ c = some .keys ∧
    ∃ rs ss : List Reply, rs.Perm ss ∧ x = .ok (.array rs) ∧ y = .ok (.array ss)

namespace SameReply

variable {ε : Type} {c : Option Command} {x y z : Except ε Reply}

theorem symm (h : SameReply c x y) : SameReply c y x := by
  rcases h with h | ⟨hc, rs, ss, hp, hx, hy⟩
  · exact .inl h.symm
  · exact .inr ⟨hc, ss, rs, hp.symm, hy, hx⟩

theorem trans (h : SameReply c x y) (h' : SameReply c y z) : SameReply c x z := by
  rcases h with rfl | ⟨hc, rs, ss, hp, hx, hy⟩
  · exact h'
  · rcases h' with rfl | ⟨-, ts, us, hq, hy', hz⟩
    · exact .inr ⟨hc, rs, ss, hp, hx, hy⟩
    · rw [hy, Except.ok.injEq, Reply.array.injEq] at hy'
      exact .inr ⟨hc, rs, us, hp.trans (hy' ▸ hq), hx, hz⟩

end SameReply

def SameReplies (xs ys : List (Request × Except Fault Reply)) : Prop :=
  List.Forall₂ (fun x y => x.1 = y.1 ∧ SameReply x.1.command? x.2 y.2) xs ys

namespace SameReplies

variable {xs ys zs : List (Request × Except Fault Reply)}

theorem symm (h : SameReplies xs ys) : SameReplies ys xs := by
  induction h with
  | nil => exact .nil
  | cons hx _ ih => exact .cons ⟨hx.1.symm, hx.1 ▸ hx.2.symm⟩ ih

theorem trans (h : SameReplies xs ys) (h' : SameReplies ys zs) : SameReplies xs zs := by
  induction h generalizing zs with
  | nil => exact h'
  | cons hx _ ih =>
    cases h' with
    | cons hy hys => exact .cons ⟨hx.1.trans hy.1, hx.2.trans (hx.1 ▸ hy.2)⟩ (ih hys)

end SameReplies

namespace Dispatch

variable {now : Instant} {s t : Keyspace}

theorem Touches.sameLive {ks : List Text} {op : Keyspace → Outcome} (ho : Touches now ks op)
    (h : SameLive now s t) : (op s).1 = (op t).1 ∧ SameLive now (op s).2 (op t).2 := by
  cases ho with
  | answer ks x => exact ⟨rfl, h⟩
  | assign k e r => exact ⟨rfl, h.put k e⟩
  | visit k f => exact ⟨h.visit_fst k f, h.visit k f⟩
  | visitEach ks f =>
    obtain ⟨hn, hs⟩ := h.visitEach f ks
    exact ⟨congrArg (fun n => Except.ok (count n)) hn, hs⟩

theorem run_sameLive (h : SameLive now s t) (name : Text) (c : Command) (args : List Bytes) :
    SameReply (some c) (run now s name c args).1 (run now t name c args).1 ∧
      SameLive now (run now s name c args).2 (run now t name c args).2 := by
  cases hc : c.isGlobal with
  | false =>
    have ht : Touches now (named args c) fun s => run now s name c args := run_touches hc name args
    obtain ⟨hx, hs⟩ := ht.sameLive h
    exact ⟨.inl hx, hs⟩
  | true =>
    cases shape c args with
    | few lacking refused =>
      rw [refused, refused]
      exact ⟨.inl rfl, h⟩
    | keys pattern =>
      have hp := (h.keysMatching_perm (.ofBytes pattern)).map Reply.ofText
      exact ⟨.inr ⟨rfl, _, _, hp, rfl, rfl⟩, h⟩
    | dbsize => exact ⟨.inl (congrArg (fun n => Except.ok (count n)) h.size_eq), h⟩
    | flushdb | flushall => exact ⟨.inl rfl, .flush s t⟩
    | _ => cases hc

theorem perform_sameLive (h : SameLive now s t) (r : Request) :
    SameReply r.command? (perform now s r).1 (perform now t r).1 ∧
      SameLive now (perform now s r).2 (perform now t r).2 := by
  unfold perform Request.command?
  cases Command.ofText? r.name with
  | none => exact ⟨.inl rfl, h⟩
  | some c =>
    by_cases ha : c.admits r.args.length = true
    · simp only [if_pos ha]
      exact run_sameLive h r.name c r.args
    · simp only [if_neg ha]
      exact ⟨.inl rfl, h⟩

end Dispatch

theorem SameReply.told {c : Option Command} {x y : Except Failure Reply} (h : SameReply c x y) :
    SameReply c (told x) (told y) := by
  rcases h with rfl | ⟨hc, rs, ss, hp, rfl, rfl⟩
  · exact .inl rfl
  · exact .inr ⟨hc, rs, ss, hp, rfl, rfl⟩

theorem dispatch_sameLive {now : Instant} {s t : Keyspace} (h : SameLive now s t) (r : Request) :
    SameReply r.command? (dispatch now s r).1 (dispatch now t r).1 ∧
      SameLive now (dispatch now s r).2 (dispatch now t r).2 := by
  rw [dispatch_eq, dispatch_eq]
  obtain ⟨hx, hs⟩ := perform_sameLive h r
  exact ⟨hx.told, hs⟩

namespace Moment

structure Matches (m n : Moment) : Prop where
  now_eq : m.now = n.now
  same : SameLive m.now m.keyspace n.keyspace

namespace Matches

variable {m n o : Moment}

theorem refl (hm : m.keyspace.keys.Nodup) : m.Matches m := ⟨rfl, .refl hm⟩

theorem symm (h : m.Matches n) : n.Matches m := ⟨h.now_eq.symm, h.now_eq ▸ h.same.symm⟩

theorem trans (h : m.Matches n) (h' : n.Matches o) : m.Matches o :=
  ⟨h.now_eq.trans h'.now_eq, h.same.trans (h.now_eq ▸ h'.same)⟩

theorem live_perm (h : m.Matches n) : m.live.Perm n.live := by
  have hp := h.same.perm
  unfold live
  rw [← h.now_eq]
  exact hp

theorem request (h : m.Matches n) (r : Request) :
    SameReply r.command? (dispatch m.now m.keyspace r).1 (dispatch n.now n.keyspace r).1 ∧
      (m.step (.request r)).Matches (n.step (.request r)) := by
  obtain ⟨hx, hs⟩ := dispatch_sameLive h.same r
  have hn := h.now_eq
  refine ⟨hn ▸ hx, hn, ?_⟩
  simp only [step]
  rw [← hn]
  exact hs

theorem clock (h : m.Matches n) {later : Instant} (hl : m.now.le later = true) :
    (m.step (.clock later)).Matches (n.step (.clock later)) := ⟨rfl, h.same.at_later hl⟩

theorem sweep_left (h : m.Matches n) : (m.step .sweep).Matches n :=
  ⟨h.now_eq, (SameLive.sweep h.same.nodup_left).trans h.same⟩

theorem after_withoutSweeps {es : List Event} (h : m.Matches n) (hes : Forward m.now es) :
    (m.after es).Matches (n.after (withoutSweeps es)) := by
  induction es generalizing m n with
  | nil => exact h
  | cons e es ih =>
    cases e with
    | request r => exact ih (h.request r).2 hes
    | clock later => exact ih (h.clock hes.1) hes.2
    | sweep => exact ih h.sweep_left hes

theorem replies_withoutSweeps {es : List Event} (h : m.Matches n) (hes : Forward m.now es) :
    SameReplies (m.replies es) (n.replies (withoutSweeps es)) := by
  induction es generalizing m n with
  | nil => exact .nil
  | cons e es ih =>
    cases e with
    | request r => exact .cons ⟨rfl, (h.request r).1⟩ (ih (h.request r).2 hes)
    | clock later => exact ih (h.clock hes.1) hes.2
    | sweep => exact ih h.sweep_left hes

end Matches

theorem forward_withoutSweeps {now : Instant} {es : List Event} :
    Forward now (withoutSweeps es) ↔ Forward now es := by
  induction es generalizing now with
  | nil => exact Iff.rfl
  | cons e es ih =>
    cases e with
    | request r => exact ih
    | clock later => exact and_congr_right fun _ => ih
    | sweep => exact ih

theorem nodup_after {m : Moment} {es : List Event} (hm : m.keyspace.keys.Nodup)
    (hes : Forward m.now es) : (m.after es).keyspace.keys.Nodup :=
  ((Matches.refl hm).after_withoutSweeps hes).same.nodup_left

/-- Two runs from one moment, as far as anyone but a sweeper can see. -/
structure Alike (m : Moment) (es fs : List Event) : Prop where
  replies : SameReplies (m.replies es) (m.replies fs)
  live : ∀ p q, p <+: es → q <+: fs → withoutSweeps p = withoutSweeps q →
    (m.after p).now = (m.after q).now ∧ (m.after p).live.Perm (m.after q).live

structure SweepsExpired (m : Moment) : Prop where
  count : (m.keyspace.sweep m.now).1 = (m.keyspace.filter (·.2.isExpired m.now)).length
  find? : ∀ k, (m.step .sweep).keyspace.find? k =
    (m.keyspace.find? k).filter (!·.isExpired m.now)
  length : m.keyspace.length = (m.keyspace.sweep m.now).1 + (m.step .sweep).keyspace.length

theorem alike {m : Moment} (hm : m.keyspace.keys.Nodup) {es fs : List Event}
    (hes : Forward m.now es) (h : withoutSweeps es = withoutSweeps fs) : Alike m es fs := by
  have hfs : Forward m.now fs := forward_withoutSweeps.mp (h ▸ forward_withoutSweeps.mpr hes)
  -- Both runs are compared with the one that has no sweeps at all.
  constructor
  · have he := (Matches.refl hm).replies_withoutSweeps hes
    have hf := (Matches.refl hm).replies_withoutSweeps hfs
    exact he.trans (h ▸ hf.symm)
  · rintro p q ⟨_, rfl⟩ ⟨_, rfl⟩ hpq
    have hp := (Matches.refl hm).after_withoutSweeps (forward_append rfl hes).1
    have hq := (Matches.refl hm).after_withoutSweeps (forward_append rfl hfs).1
    have hm' := hp.trans (hpq ▸ hq.symm)
    exact ⟨hm'.now_eq, hm'.live_perm⟩

theorem sweepsExpired {m : Moment} (hm : m.keyspace.keys.Nodup) : SweepsExpired m := by
  have hc : (m.keyspace.sweep m.now).1 = (m.keyspace.filter (·.2.isExpired m.now)).length := by
    simp only [sweep, isLive, Bool.not_not, List.countP_eq_length_filter]
  refine ⟨hc, fun k => Bindings.find?_filter _ hm, ?_⟩
  rw [hc]
  exact List.length_eq_length_filter_add _

/-- Lazy expiry looks like eager expiry: runs that differ in their sweeps alone have the same replies and
at every point the same live entries. -/
theorem sweeps_unnoticed {m : Moment} (hm : m.keyspace.keys.Nodup) {es fs : List Event}
    (hes : Forward m.now es) (h : withoutSweeps es = withoutSweeps fs) :
    Alike m es fs ∧ ∀ p, p ++ [.sweep] <+: es → SweepsExpired (m.after p) := by
  refine ⟨alike hm hes h, ?_⟩
  rintro p ⟨_, rfl⟩
  rw [List.append_assoc] at hes
  exact sweepsExpired (nodup_after hm (forward_append rfl hes).1)

def rebinding (sweeps : List Event) : List Event :=
  .request ⟨.ofString "SETEX", [[107], [49], [97]]⟩ :: .clock (.ofUnits false (2 * Binary64.one)) ::
    (sweeps ++ [.request ⟨.ofString "SET", [[107], [98]]⟩, .request ⟨.ofString "KEYS", [[42]]⟩])

theorem sweeps_unnoticed_rebinding :
    Alike ⟨.zero, []⟩ (rebinding [.sweep, .sweep]) (rebinding []) ∧
      ∀ p, p ++ [.sweep] <+: rebinding [.sweep, .sweep] →
        SweepsExpired ((⟨.zero, []⟩ : Moment).after p) :=
  sweeps_unnoticed (m := ⟨.zero, []⟩) List.nodup_nil ⟨by decide +kernel, trivial⟩ rfl

end Moment

end RespStore
