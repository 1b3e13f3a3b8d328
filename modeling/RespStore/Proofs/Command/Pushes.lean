import RespStore.Proofs.Command.Undisturbed
import RespStore.Proofs.Keyspace.Batches
import RespStore.Proofs.Keyspace.Window

/-! Lists that are pushed to. A push at the front or at the back adds its values to what is there and nothing else does,
so a list that nobody else writes to is what was pushed to its front, the last value first, and then what was pushed to
its back; and every push is told how many values that makes. -/

namespace RespStore

open Keyspace Dispatch

namespace Keyspace

theorem left_storeItems (x : Option Entry) (items : List Bytes) :
    (storeItems none items).2.left x = lasting (.list items) := by
  cases items <;> rfl

theorem changeItems_lasting {now : Instant} {k : Text} {s : Keyspace} {items : List Bytes}
    (h : s.live? now k = lasting (.list items)) (f : List Bytes → List Bytes) :
    (s.changeItems now k f).1 = .ok (f items).length ∧
      (s.changeItems now k f).2.live? now k = lasting (.list (f items)) := by
  have hvisit : itemsVisit f (s.live? now k) = storeItems none (f items) := by
    rw [h, itemsVisit, itemsOf_lasting, bind_deadline_lasting]
  have hchange : s.changeItems now k f = s.visit now k (itemsVisit f) := rfl
  rw [hchange]
  constructor
  · rw [visit, hvisit, storeItems_fst]
  · rw [live?_visit, if_pos rfl, hvisit, left_storeItems, filter_lasting]

end Keyspace

namespace Request

def PushesTo (b : Bytes) (r : Request) : Prop :=
  (r.command? = some .lpush ∨ r.command? = some .rpush) ∧ ∃ v vs, r.args = b :: v :: vs

def pushed (c : Command) (b : Bytes) (r : Request) : List Bytes :=
  if r.command? = some c ∧ r.args.head? = some b then r.args.tail else []

def pushInto (b : Bytes) (items : List Bytes) (r : Request) : List Bytes :=
  (r.pushed .lpush b).reverse ++ items ++ r.pushed .rpush b

variable {b : Bytes} {r : Request}

theorem pushed_of_spares (hr : r.Spares b) {c : Command} (hc : c.changesPart = true) : r.pushed c b = [] := by
  refine if_neg ?_
  rintro ⟨hcommand, hhead⟩
  cases hc.symm.trans (hr.changesPart hcommand hhead)

theorem pushInto_of_spares (hr : r.Spares b) (items : List Bytes) : r.pushInto b items = items := by
  rw [pushInto, pushed_of_spares hr rfl, pushed_of_spares hr rfl, List.append_nil]
  rfl

theorem pushInto_ne_nil (hr : r.PushesTo b) (items : List Bytes) : r.pushInto b items ≠ [] := by
  obtain ⟨hcommand, v, vs, hargs⟩ := hr
  have hpushed : ∀ c, r.command? = some c → r.pushed c b = v :: vs := fun c hc => by
    rw [pushed, hargs]
    exact if_pos ⟨hc, rfl⟩
  unfold pushInto
  rcases hcommand with hc | hc <;> simp [hpushed _ hc]

end Request

namespace Dispatch

theorem perform_push {b : Bytes} {r : Request} (hr : r.PushesTo b) (now : Instant) (s : Keyspace) :
    perform now s r = trying count (s.changeItems now (keyOf b) (r.pushInto b ·)) := by
  obtain ⟨name, args⟩ := r
  obtain ⟨hcommand, v, vs, hargs⟩ := hr
  obtain rfl : args = b :: v :: vs := hargs
  rcases hcommand with hc | hc
  · have hadmits : Command.admits .lpush (b :: v :: vs).length = true :=
      Command.admits_of_le rfl (Nat.le_add_left 2 _)
    have hpush : (fun items => Request.pushInto b items ⟨name, b :: v :: vs⟩) =
        fun items => (v :: vs).reverse ++ items := by
      funext items
      simp [Request.pushInto, Request.pushed, hc]
    rw [perform_eq_run hc hadmits, hpush]
    rfl
  · have hadmits : Command.admits .rpush (b :: v :: vs).length = true :=
      Command.admits_of_le rfl (Nat.le_add_left 2 _)
    have hpush : (fun items => Request.pushInto b items ⟨name, b :: v :: vs⟩) = fun items => items ++ v :: vs := by
      funext items
      simp [Request.pushInto, Request.pushed, hc]
    rw [perform_eq_run hc hadmits, hpush]
    rfl

end Dispatch

namespace Moment

def allPushed (c : Command) (b : Bytes) (es : List Event) : List Bytes := (requests es).flatMap (·.pushed c b)

/-- What was pushed to the front, the last value first, and then what was pushed to the back. -/
def pushedList (b : Bytes) (es : List Event) : List Bytes := (allPushed .lpush b es).reverse ++ allPushed .rpush b es

def pushedCount (b : Bytes) (es : List Event) : Nat := (allPushed .lpush b es).length + (allPushed .rpush b es).length

variable {m : Moment} {b : Bytes} {es : List Event} {items : List Bytes}

theorem foldl_pushInto (b : Bytes) (rs : List Request) (items : List Bytes) :
    rs.foldl (fun items r => r.pushInto b items) items =
      (rs.flatMap (·.pushed .lpush b)).reverse ++ items ++ rs.flatMap (·.pushed .rpush b) := by
  induction rs generalizing items with
  | nil => simp
  | cons r rs ih =>
    rw [List.foldl_cons, ih]
    simp [Request.pushInto]

theorem length_pushedList (b : Bytes) (es : List Event) : (pushedList b es).length = pushedCount b es := by
  rw [pushedList, List.length_append, List.length_reverse, pushedCount]

theorem authored_pushes (b : Bytes) : Authored b (·.PushesTo b) (.list ·) fun items r => r.pushInto b items where
  spared items r hr := Request.pushInto_of_spares hr items
  written m items r hr hlive := by
    rw [liveAt_request, perform_push hr]
    exact (changeItems_lasting hlive _).2

theorem liveAt_pushed (hm : m.keyspace.keys.Nodup) (habsent : m.liveAt (keyOf b) = none) (hes : Forward m.now es)
    (honly : OnlyWrites b (·.PushesTo b) es) : (m.after es).liveAt (keyOf b) = lasting (.list (pushedList b es)) := by
  have hafter := (authored_pushes b).liveAt_after hm hes honly (x := []) habsent
  rwa [foldl_pushInto, List.append_nil] at hafter

theorem llen_eq (m : Moment) (b : Bytes) :
    m.reply .llen [b] = told (((itemsOf (m.liveAt (keyOf b))).map List.length).map count) := reply_eq rfl

theorem reply_llen (h : m.liveAt (keyOf b) = lasting (.list items)) : m.reply .llen [b] = .ok (count items.length) := by
  rw [llen_eq, h, itemsOf_lasting]
  rfl

theorem reply_lrange_whole (h : m.liveAt (keyOf b) = lasting (.list items)) :
    m.reply .lrange [b, .ofString "0", .ofString "-1"] = .ok (.ofBulks items) := by
  have hfirst : Argument.integer (.ofString "0") = .ok 0 := by decide
  have hlast : Argument.integer (.ofString "-1") = .ok (-1) := by decide
  have hrun : (run m.now m.keyspace (.ofString Command.lrange.name) .lrange [b, .ofString "0", .ofString "-1"]).1 =
      ((itemsOf (m.liveAt (keyOf b))).map (window 0 (-1))).map .ofBulks := by
    rw [run, withInteger, hfirst]
    dsimp only
    rw [withInteger, hlast]
    rfl
  rw [reply_eq rfl, hrun, h, itemsOf_lasting, Except.map, window_whole]
  rfl

theorem reply_push {r : Request} (hr : r.PushesTo b) (h : m.liveAt (keyOf b) = lasting (.list items)) :
    (dispatch m.now m.keyspace r).1 = .ok (count (r.pushInto b items).length) := by
  rw [dispatch_eq, perform_push hr, trying, (changeItems_lasting h _).1]
  rfl

theorem OnlyWrites.of_isPrefix {Writes : Request → Prop} (h : OnlyWrites b Writes es) {p : List Event} (hp : p <+: es) :
    OnlyWrites b Writes p := fun e he => h e (hp.subset he)

theorem forward_of_isPrefix (hes : Forward m.now es) {p : List Event} (hp : p <+: es) : Forward m.now p := by
  obtain ⟨q, rfl⟩ := hp
  exact (forward_append rfl hes).1

/-- Whatever is done elsewhere, a key that was absent, and is only pushed to and asked for, holds at every time what has
been pushed so far, each value once and in its place, and every push is told how many values that makes. -/
theorem pushes_kept (hm : m.keyspace.keys.Nodup) (habsent : m.liveAt (keyOf b) = none) (hes : Forward m.now es)
    (honly : OnlyWrites b (·.PushesTo b) es) :
    (∀ p r, p ++ [.request r] <+: es → r.PushesTo b →
      (dispatch (m.after p).now (m.after p).keyspace r).1 = .ok (count (pushedCount b (p ++ [.request r])))) ∧
      ∀ p, p <+: es → (m.after p).reply .llen [b] = .ok (count (pushedCount b p)) ∧
        (m.after p).reply .lrange [b, .ofString "0", .ofString "-1"] = .ok (.ofBulks (pushedList b p)) := by
  have hlist : ∀ p, p <+: es → (m.after p).liveAt (keyOf b) = lasting (.list (pushedList b p)) := fun p hp =>
    liveAt_pushed hm habsent (forward_of_isPrefix hes hp) (honly.of_isPrefix hp)
  constructor
  · intro p r hp hr
    have hinto : r.pushInto b (pushedList b p) = pushedList b (p ++ [.request r]) := by
      simp [Request.pushInto, pushedList, allPushed, requests]
    rw [reply_push hr (hlist p ((List.prefix_append p _).trans hp)), hinto, length_pushedList]
  · intro p hp
    rw [reply_llen (hlist p hp), reply_lrange_whole (hlist p hp), length_pushedList]
    exact ⟨rfl, rfl⟩

def bothEnds : List Event :=
  [.request (.of .rpush [[108], [97], [98]]), .request (.of .setex [[107], [49], [118]]),
    .clock (.ofUnits false (2 * Binary64.one)), .request ⟨.ofString "lpush", [[108], [99], [100]]⟩, .sweep,
    .request (.of .llen [[108]])]

theorem pushes_kept_bothEnds :
    let m := (Moment.mk .zero []).after bothEnds
    m.reply .llen [[108]] = .ok (count 4) ∧
      m.reply .lrange [[108], .ofString "0", .ofString "-1"] = .ok (.ofBulks [[100], [99], [97], [98]]) := by
  have hforward : Forward .zero bothEnds := ⟨by decide +kernel, trivial⟩
  have honly : OnlyWrites [108] (·.PushesTo [108]) bothEnds := by
    intro e he
    simp only [bothEnds, List.mem_cons, List.not_mem_nil, or_false] at he
    rcases he with rfl | rfl | rfl | rfl | rfl | rfl
    · exact .inr ⟨_, rfl, .inr (Request.command?_of ..), _, _, rfl⟩
    · exact .inl (.inl ⟨by decide, by decide⟩)
    · exact .inl trivial
    · exact .inr ⟨_, rfl, .inl (by decide), _, _, rfl⟩
    · exact .inl trivial
    · exact .inl (.inr (by decide))
  have hkept := pushes_kept (m := ⟨.zero, []⟩) List.nodup_nil rfl hforward honly
  exact hkept.2 bothEnds List.prefix_rfl

end Moment

end RespStore
