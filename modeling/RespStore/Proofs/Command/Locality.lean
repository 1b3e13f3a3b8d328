import RespStore.Proofs.Command.Touch
import RespStore.Proofs.Keyspace.SameFields
import RespStore.Proofs.Text.Lossless

/-! Requests that name different things. A request leaves every entry alone that it does not name, and its reply
depends on no other; a request about single fields of a hash likewise leaves alone all the others. Since a name is
read from its bytes without loss, two names are the same only if their bytes are. -/

namespace RespStore

open Keyspace

namespace Command

def pairNames : List Bytes → List Bytes
  | field :: _ :: r => field :: pairNames r
  | _ => []

def keyArguments (args : List Bytes) : Command → List Bytes
  | hello | ping | echo | quit | keys | dbsize | flushdb | flushall => []
  | del | exist => args
  | _ => args.take 1

def fieldArguments (args : List Bytes) : Command → List Bytes
  | hget | hexists => (args.drop 1).take 1
  | hmget | hdel => args.drop 1
  | hset | hmset => pairNames (args.drop 1)
  | _ => []

def namesFields : Command → Bool
  | hset | hget | hmset | hmget | hdel | hexists => true
  | _ => false

end Command

namespace Request

def keyArguments (r : Request) : List Bytes := (r.command?.map (·.keyArguments r.args)).getD []

def fieldArguments (r : Request) : List Bytes := (r.command?.map (·.fieldArguments r.args)).getD []

def isGlobal (r : Request) : Bool := r.command?.any (·.isGlobal)

def namesFields (r : Request) : Bool := r.command?.any (·.namesFields)

/-- Name no key in common, or, where both are about single fields, no field. -/
def Apart (r q : Request) : Prop :=
  (∀ b ∈ q.keyArguments, b ∉ r.keyArguments) ∨
    (r.namesFields = true ∧ q.namesFields = true ∧ ∀ g ∈ q.fieldArguments, g ∉ r.fieldArguments)

end Request

theorem Keyspace.find?_visitEach {now : Instant} {s : Keyspace} {j : Text} {ks : List Text} (hj : j ∉ ks)
    (f : Option Entry → Nat × Change) : (s.visitEach now f ks).2.find? j = s.find? j := by
  induction ks generalizing s with
  | nil => rfl
  | cons k ks ih =>
    rw [List.mem_cons, not_or] at hj
    have hk : (s.visit now k f).2.find? j = s.find? j := (find?_visit f).trans (if_neg hj.1)
    rw [visitEach_cons]
    exact (ih hj.2).trans hk

theorem Keyspace.visitEach_congr {now : Instant} {s t : Keyspace} {ks : List Text}
    (h : ∀ k ∈ ks, s.live? now k = t.live? now k) (f : Option Entry → Nat × Change) :
    (s.visitEach now f ks).1 = (t.visitEach now f ks).1 := by
  induction ks generalizing s t with
  | nil => rfl
  | cons k ks ih =>
    have hk : s.live? now k = t.live? now k := h k List.mem_cons_self
    have hvisit : (s.visit now k f).1 = (t.visit now k f).1 := by rw [visit, visit, hk]
    rw [visitEach_cons, visitEach_cons, hvisit]
    refine congrArg (_ + ·) (ih fun j hj => ?_)
    rw [live?_visit, live?_visit, hk, h j (List.mem_cons_of_mem k hj)]

theorem Keyspace.live?_congr {now : Instant} {s t : Keyspace} {k : Text} (h : s.find? k = t.find? k) :
    s.live? now k = t.live? now k := congrArg (Option.filter _) h

theorem Keyspace.find?_visit_congr {α : Type} {now : Instant} {s t : Keyspace} {j k : Text}
    (hk : s.find? k = t.find? k) (hj : s.find? j = t.find? j) (f : Option Entry → α × Change) :
    (s.visit now k f).2.find? j = (t.visit now k f).2.find? j := by
  rw [find?_visit, find?_visit, live?_congr hk, hj]

theorem Keyspace.find?_visitEach_congr {now : Instant} {s t : Keyspace} {j : Text} {ks : List Text}
    (h : ∀ k ∈ ks, s.find? k = t.find? k) (hj : s.find? j = t.find? j) (f : Option Entry → Nat × Change) :
    (s.visitEach now f ks).2.find? j = (t.visitEach now f ks).2.find? j := by
  induction ks generalizing s t with
  | nil => exact hj
  | cons k ks ih =>
    have hk : s.find? k = t.find? k := h k List.mem_cons_self
    rw [visitEach_cons, visitEach_cons]
    exact ih (fun i hi => find?_visit_congr hk (h i (List.mem_cons_of_mem k hi)) f) (find?_visit_congr hk hj f)

namespace Dispatch

variable {now : Instant} {ks : List Text} {op : Keyspace → Outcome} {s t : Keyspace}

theorem Touches.find?_of_not_mem (ho : Touches now ks op) {j : Text} (hj : j ∉ ks) (s : Keyspace) :
    (op s).2.find? j = s.find? j := by
  cases ho with
  | answer ks x => rfl
  | assign k e r => exact Bindings.find?_put_of_ne (fun h => hj (List.mem_singleton.mpr h)) e s
  | visit k f => exact (find?_visit f).trans (if_neg fun h => hj (List.mem_singleton.mpr h))
  | visitEach ks f => exact find?_visitEach hj f

theorem Touches.reply_congr (ho : Touches now ks op) (h : ∀ k ∈ ks, s.live? now k = t.live? now k) :
    (op s).1 = (op t).1 := by
  cases ho with
  | answer ks x => rfl
  | assign k e r => rfl
  | visit k f =>
    show (f (s.live? now k)).1 = (f (t.live? now k)).1
    rw [h k List.mem_cons_self]
  | visitEach ks f => exact congrArg (fun n => Except.ok (count n)) (visitEach_congr h f)

theorem Touches.find?_congr (ho : Touches now ks op) (h : ∀ k ∈ ks, s.find? k = t.find? k) {j : Text}
    (hj : s.find? j = t.find? j) : (op s).2.find? j = (op t).2.find? j := by
  cases ho with
  | answer ks x => exact hj
  | assign k e r =>
    show (s.put k e).find? j = (t.put k e).find? j
    by_cases hjk : j = k
    · rw [hjk, Bindings.find?_put_self, Bindings.find?_put_self]
    · rw [Bindings.find?_put_of_ne hjk, Bindings.find?_put_of_ne hjk, hj]
  | visit k f => exact find?_visit_congr (h k List.mem_cons_self) hj f
  | visitEach ks f => exact find?_visitEach_congr h hj f

theorem named_eq (args : List Bytes) (c : Command) : named args c = (c.keyArguments args).map keyOf := by
  cases c <;> rfl

theorem perform_touches {r : Request} (hr : r.isGlobal = false) :
    Touches now (r.keyArguments.map keyOf) fun s => perform now s r := by
  unfold perform Request.keyArguments
  unfold Request.isGlobal at hr
  unfold Request.command? at *
  cases hc : Command.ofText? r.name with
  | none => exact .answer _ _
  | some c =>
    rw [hc] at hr
    by_cases ha : c.admits r.args.length = true
    · simp only [if_pos ha]
      have hrun : Touches now (named r.args c) fun s => run now s r.name c r.args := run_touches hr r.name r.args
      rw [named_eq] at hrun
      exact hrun
    · simp only [if_neg ha]
      exact .answer _ _

theorem find?_perform {r : Request} (hr : r.isGlobal = false) {b : Bytes} (hb : b ∉ r.keyArguments)
    (s : Keyspace) : (perform now s r).2.find? (keyOf b) = s.find? (keyOf b) := by
  refine (perform_touches hr).find?_of_not_mem ?_ s
  intro h
  obtain ⟨c, hc, heq⟩ := List.mem_map.mp h
  exact hb (Text.ofBytes_injective heq ▸ hc)

theorem map_fst_pairs (kvs : List Bytes) :
    (pairs kvs).map (·.1) = (Command.pairNames kvs).map Text.ofBytes := by
  fun_induction pairs kvs with
  | case1 field data r ih =>
    rw [List.map_cons, ih, Command.pairNames, List.map_cons]
  | case2 kvs h =>
    rw [Command.pairNames.eq_def]
    split
    · exact absurd rfl (h _ _ _)
    · rfl

theorem run_fieldWise {c : Command} (hc : c.namesFields = true) (name : Text) {args : List Bytes}
    (ha : c.admits args.length = true) :
    ∃ key f, c.keyArguments args = [key] ∧ FieldWise ((c.fieldArguments args).map Text.ofBytes) f ∧
      ∀ s, run now s name c args = s.visit now (keyOf key) f := by
  cases shape c args with
  | few lacking => cases lacking.symm.trans ha
  | hset key kvs =>
    have hf := (fieldWise_put (pairs kvs)).map fun _ => Reply.integer 1
    rw [map_fst_pairs] at hf
    exact ⟨key, _, rfl, hf, fun s => rfl⟩
  | hmset key kvs =>
    have hf := (fieldWise_put (pairs kvs)).map fun _ => Reply.ok
    rw [map_fst_pairs] at hf
    exact ⟨key, _, rfl, hf, fun s => rfl⟩
  | hget key field =>
    have hvalue : FieldWise [Text.ofBytes field] fun x => ((fieldsOf x).map (·.find? (.ofBytes field)), .keep) :=
      fieldWise_read fun h => h _ List.mem_cons_self
    exact ⟨key, _, rfl, hvalue.map .ofBytes?, fun s => rfl⟩
  | hexists key field =>
    have hfound : FieldWise [Text.ofBytes field]
        fun x => ((fieldsOf x).map fun fs => (fs.find? (.ofBytes field)).isSome, .keep) :=
      fieldWise_read fun h => congrArg Option.isSome (h _ List.mem_cons_self)
    exact ⟨key, _, rfl, hfound.map .ofBool, fun s => rfl⟩
  | hmget key fields =>
    have hvalues : FieldWise (fields.map Text.ofBytes)
        fun x => ((fieldsOf x).map fun fs => (fields.map Text.ofBytes).map (fs.find? ·), .keep) :=
      fieldWise_read fun h => List.map_congr_left h
    exact ⟨key, _, rfl, hvalues.map fun vs => .array (vs.map .ofBytes?), fun s => rfl⟩
  | hdel key fields => exact ⟨key, _, rfl, (fieldWise_erase (fields.map .ofBytes)).map count, fun s => rfl⟩
  | _ => cases hc

theorem perform_fieldWise {r : Request} (hr : r.namesFields = true) :
    (∃ key f, r.keyArguments = [key] ∧ FieldWise (r.fieldArguments.map Text.ofBytes) f ∧
      ∀ s, perform now s r = s.visit now (keyOf key) f) ∨ ∃ e, ∀ s, perform now s r = (.error e, s) := by
  unfold perform Request.keyArguments Request.fieldArguments
  unfold Request.namesFields at hr
  unfold Request.command? at *
  cases hc : Command.ofText? r.name with
  | none => exact .inr ⟨_, fun s => rfl⟩
  | some c =>
    rw [hc] at hr
    by_cases ha : c.admits r.args.length = true
    · simp only [if_pos ha]
      exact .inl (run_fieldWise hr r.name ha)
    · simp only [if_neg ha]
      exact .inr ⟨_, fun s => rfl⟩

theorem perform_of_disjoint {r q : Request} (hr : r.isGlobal = false) (hq : q.isGlobal = false)
    (h : ∀ b ∈ q.keyArguments, b ∉ r.keyArguments) (s : Keyspace) :
    (perform now (perform now s r).2 q).1 = (perform now s q).1 := by
  refine (perform_touches hq).reply_congr fun k hk => ?_
  obtain ⟨b, hb, rfl⟩ := List.mem_map.mp hk
  rw [live?, live?, find?_perform hr (h b hb)]

/-- Requests that name different things do not notice each other. -/
theorem perform_of_apart {r q : Request} (h : r.Apart q) (hr : r.isGlobal = false) (hq : q.isGlobal = false)
    (s : Keyspace) : (perform now (perform now s r).2 q).1 = (perform now s q).1 := by
  rcases h with hkeys | ⟨hrf, hqf, hfields⟩
  · exact perform_of_disjoint hr hq hkeys s
  rcases perform_fieldWise hrf with ⟨a, f, ha, hf, hrun⟩ | ⟨e, hrun⟩
  · rcases perform_fieldWise hqf with ⟨b, g, hb, hg, hqrun⟩ | ⟨e, hqrun⟩
    · by_cases hab : b = a
      · subst hab
        have hothers : ∀ n ∈ q.fieldArguments.map Text.ofBytes, n ∉ r.fieldArguments.map Text.ofBytes := by
          intro n hn hn'
          obtain ⟨c, hc, rfl⟩ := List.mem_map.mp hn
          obtain ⟨d, hd, hcd⟩ := List.mem_map.mp hn'
          exact hfields c hc (Text.ofBytes_injective hcd ▸ hd)
        have hsame := hf.effect hothers (s.live? now (keyOf b))
        rw [hrun, hqrun, hqrun]
        show (g ((s.visit now (keyOf b) f).2.live? now (keyOf b))).1 = (g (s.live? now (keyOf b))).1
        rw [hf.live?_visit now s (keyOf b)]
        exact (hg.reply hsame).symm
      · refine perform_of_disjoint hr hq (fun c hc => ?_) s
        rw [hb, List.mem_singleton] at hc
        rw [hc, ha, List.mem_singleton]
        exact hab
    · rw [hqrun, hqrun]
  · rw [hrun]

end Dispatch

end RespStore
