import RespStore.Proofs.Command.Answer
import RespStore.Proofs.Command.Sweeps
import RespStore.Proofs.Keyspace.WellFormed

/-! The keyspace in good order. Whatever requests, steps of the clock and sweeps have come before, each key is bound
once, and no entry, not even an expired one, is a hash or a list without anything in it. -/

namespace RespStore

open Keyspace Dispatch

def Request.of (c : Command) (args : List Bytes) : Request := ⟨.ofString c.name, args⟩

theorem Request.command?_of (c : Command) (args : List Bytes) : (Request.of c args).command? = some c :=
  Command.ofText?_name c

theorem Command.admits_of_le {c : Command} {n : Nat} (hc : c.takesPairs = false) (hn : c.leastArguments ≤ n) :
    c.admits n = true := by simp [admits, hc, hn]

theorem Dispatch.perform_of (now : Instant) (s : Keyspace) {c : Command} {args : List Bytes}
    (h : c.admits args.length = true) :
    perform now s (.of c args) = run now s (.ofString c.name) c args := by
  have hname : Command.ofText? (Request.of c args).name = some c := Command.ofText?_name c
  rw [perform, hname]
  exact if_pos h

theorem nodup_dispatch {now : Instant} {s : Keyspace} (hs : s.keys.Nodup) (r : Request) :
    (dispatch now s r).2.keys.Nodup :=
  (dispatch_sameLive (.refl hs) r).2.nodup_left

theorem ok_of_told {x : Except Failure Reply} {q : Reply} (h : told x = .ok q) (hq : q.isError = false) :
    x = .ok q := by
  match x, h with
  | .ok reply, h => exact congrArg _ (Except.ok.inj h)
  | .error (.refused e), h =>
    obtain rfl := Except.ok.inj h
    cases hq

theorem exists_of_map_ok {ε α β : Type} {f : α → β} {x : Except ε α} {c : β} (h : x.map f = .ok c) :
    ∃ a, x = .ok a ∧ f a = c := by
  cases x with
  | ok a => exact ⟨a, rfl, Except.ok.inj h⟩
  | error e => cases h

namespace Moment

variable {m : Moment} {b : Bytes}

def reply (m : Moment) (c : Command) (args : List Bytes) : Except Fault Reply :=
  (dispatch m.now m.keyspace (.of c args)).1

theorem reply_eq {c : Command} {args : List Bytes} (h : c.admits args.length = true) :
    m.reply c args = told (run m.now m.keyspace (.ofString c.name) c args).1 := by
  rw [reply, dispatch_eq, perform_of _ _ h]

theorem after_induction {I : Moment → Prop} {es : List Event} (hI : ∀ e ∈ es, ∀ m, I m → I (m.step e))
    (hm : I m) : I (m.after es) := by
  induction es generalizing m with
  | nil => exact hm
  | cons e es ih =>
    exact ih (fun e' he' => hI e' (List.mem_cons_of_mem e he')) (hI e List.mem_cons_self m hm)

structure Coherent (m : Moment) : Prop where
  nodup : m.keyspace.keys.Nodup
  wellFormed : m.keyspace.Every Entry.WellFormed

theorem coherent_empty (now : Instant) : (Moment.mk now []).Coherent := ⟨List.nodup_nil, every_nil⟩

theorem Coherent.step (hm : m.Coherent) (e : Event) : (m.step e).Coherent := by
  cases e with
  | request r =>
    have hcourse : Course m.now m.keyspace r.numerals (perform m.now m.keyspace r) := perform_course ..
    refine ⟨nodup_dispatch hm.nodup r, ?_⟩
    rw [Moment.step, dispatch_eq]
    exact hcourse.every upheld_wellFormed hm.wellFormed
  | clock later => exact ⟨hm.nodup, hm.wellFormed⟩
  | sweep => exact ⟨Bindings.nodup_filter hm.nodup, hm.wellFormed.sublist List.filter_sublist⟩

theorem coherent_after (now : Instant) (es : List Event) : ((Moment.mk now []).after es).Coherent :=
  after_induction (fun e _ _ hm => hm.step e) (coherent_empty now)

structure Absent (m : Moment) (b : Bytes) : Prop where
  exist : m.reply .exist [b] = .ok (.integer 0)
  type : m.reply .type [b] = .ok (.status (.ofString "none"))

theorem absent_of_live? (h : m.keyspace.live? m.now (keyOf b) = none) : m.Absent b := by
  constructor
  · rw [reply_eq rfl]
    show Except.ok (count (0 + (countOne (m.keyspace.live? m.now (keyOf b))).1)) = _
    rw [h]
    rfl
  · rw [reply_eq rfl]
    show Except.ok (kindLine ((m.keyspace.live? m.now (keyOf b)).map _)) = _
    rw [h]
    rfl

theorem Coherent.absent_of_llen (hm : m.Coherent) (h : m.reply .llen [b] = .ok (.integer 0)) : m.Absent b := by
  rw [reply_eq rfl] at h
  obtain ⟨n, hn, hcount⟩ := exists_of_map_ok (ok_of_told h rfl)
  obtain ⟨items, hitems, rfl⟩ := exists_of_map_ok hn
  have hlength : (items.length : Int) = 0 := Reply.integer.inj hcount
  have hnil : items = [] := List.length_eq_zero_iff.mp (Int.ofNat.inj hlength)
  rw [hnil] at hitems
  exact absent_of_live? (live?_of_itemsOf_nil hm.wellFormed hitems)

theorem Coherent.absent_of_fields (hm : m.Coherent) {f : Fields → List Reply} (hf : ∀ fs, f fs = [] → fs = [])
    (h : told (trying (fun fs => .array (f fs)) (m.keyspace.fields m.now (keyOf b))).1 = .ok (.array [])) :
    m.Absent b := by
  obtain ⟨fs, hfs, harray⟩ := exists_of_map_ok (ok_of_told h rfl)
  obtain ⟨gs, hgs, rfl⟩ := exists_of_map_ok hfs
  have hnil : gs = [] := hf gs (Reply.array.inj harray)
  rw [hnil] at hgs
  exact absent_of_live? (live?_of_fieldsOf_nil hm.wellFormed hgs)

theorem Coherent.absent_of_hash (hm : m.Coherent) {c : Command} (hc : c ∈ [.hkeys, .hvals, .hgetall])
    (h : m.reply c [b] = .ok (.array [])) : m.Absent b := by
  simp only [List.mem_cons, List.not_mem_nil, or_false] at hc
  rcases hc with rfl | rfl | rfl
  · rw [reply_eq rfl] at h
    exact hm.absent_of_fields (f := fun fs => fs.keys.map .ofText)
      (fun fs hfs => List.map_eq_nil_iff.mp (List.map_eq_nil_iff.mp hfs)) h
  · rw [reply_eq rfl] at h
    exact hm.absent_of_fields (f := fun fs => fs.values.map .bulk)
      (fun fs hfs => List.map_eq_nil_iff.mp (List.map_eq_nil_iff.mp hfs)) h
  · rw [reply_eq rfl] at h
    refine hm.absent_of_fields (f := fun fs => fs.flatMap fun p : Text × Bytes => [.ofText p.1, .bulk p.2])
      (fun fs hfs => ?_) h
    cases fs with
    | nil => rfl
    | cons p fs => cases hfs

/-- Whatever has come before, the keyspace is in good order, and whatever reads as empty is not there. -/
theorem representation_kept (now : Instant) (es : List Event) :
    let m := (Moment.mk now []).after es
    m.Coherent ∧ ∀ b, (m.reply .llen [b] = .ok (.integer 0) ∨
      ∃ c ∈ [Command.hkeys, .hvals, .hgetall], m.reply c [b] = .ok (.array [])) → m.Absent b := by
  intro m
  have hm : m.Coherent := coherent_after now es
  refine ⟨hm, ?_⟩
  rintro b (h | ⟨c, hc, h⟩)
  · exact hm.absent_of_llen h
  · exact hm.absent_of_hash hc h

def emptied : List Event := [.request (.of .hset [[104], [102], [118]]), .request (.of .hdel [[104], [102]])]

theorem representation_kept_emptied :
    let m := (Moment.mk .zero []).after emptied
    m.reply .hkeys [[104]] = .ok (.array []) ∧ m.Coherent ∧ m.Absent [104] := by
  have hempty : ((Moment.mk .zero []).after emptied).keyspace = [] := by decide +kernel
  have hfields : ((Moment.mk .zero []).after emptied).reply .hkeys [[104]] = .ok (.array []) := by
    rw [reply_eq rfl, hempty]
    rfl
  have hkept := representation_kept .zero emptied
  exact ⟨hfields, hkept.1, hkept.2 [104] (.inr ⟨.hkeys, List.mem_cons_self, hfields⟩)⟩

end Moment

end RespStore
