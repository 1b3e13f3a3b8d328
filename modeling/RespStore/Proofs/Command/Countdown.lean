import RespStore.Proofs.Command.Fields
import RespStore.Proofs.Command.Pushes

/-! Lifetimes that run out. A key that is given a lifetime is there until its deadline comes and not from then on,
however long the run and whatever else is done in it. Where no rounding enters into the sum and the difference of
times, what it is told to have left is the exact difference, rounded up. -/

namespace RespStore

open Keyspace Dispatch

namespace Request

def SetsFor (b : Bytes) (n : Int) (r : Request) : Prop :=
  r.command? = some .setex ∧
    ∃ seconds data rest, r.args = b :: seconds :: data :: rest ∧ Argument.integer seconds = .ok n

def ExpiresIn (b : Bytes) (n : Int) (r : Request) : Prop :=
  r.command? = some .expire ∧ ∃ seconds rest, r.args = b :: seconds :: rest ∧ Argument.integer seconds = .ok n

end Request

namespace Keyspace

variable {now d : Instant} {k : Text} {s : Keyspace} {n : Int} {q : ℚ}

theorem remaining_of_toRat? (h : (d.sub now).toRat? = some q) : remaining now d = .ok (max 0 ⌈q⌉) := by
  obtain ⟨negative, m, hsub, hm⟩ := Binary64.exists_finite_of_toRat? h
  have hq : ⌈q⌉ = Binary64.ceil negative m := by
    rw [Binary64.ceil_eq, hm, mul_div_cancel_right₀ _ Binary64.one_pos.ne']
  rw [remaining, hsub, hq]

theorem live?_expire {e : Entry} (hn : 0 < n) (hd : deadlineAfter now n = .ok d) (he : s.live? now k = some e) :
    (s.expire now k n).2.live? now k = (some ⟨e.value, some d⟩ : Option Entry).filter (!·.isExpired now) := by
  unfold expire
  simp only [if_neg (Int.not_le.mpr hn)]
  rw [live?_visit, if_pos rfl, he, hd]
  rfl

theorem setWithLifetime_eq (data : Bytes) (hn : 0 ≤ n) (hd : deadlineAfter now n = .ok d) :
    s.setWithLifetime now k data n = (.ok (), s.put k ⟨.string data, some d⟩) := by
  unfold setWithLifetime
  rw [if_neg (Int.not_lt.mpr hn), hd]

theorem live?_visit_kept {α : Type} {f : Option Entry → α × Change} {e : Entry} (he : s.live? now k = some e)
    (hf : ((f (some e)).2.left (some e)).map (·.deadline) = some e.deadline) :
    ((s.visit now k f).2.live? now k).map (·.deadline) = some e.deadline := by
  obtain ⟨⟨v, _⟩, hleft, rfl⟩ := Option.map_eq_some_iff.mp hf
  have hexpired : (Entry.mk v e.deadline).isExpired now = false := live?_not_expired e he
  rw [live?_visit, if_pos rfl, he, hleft, Option.filter_some, hexpired]
  rfl

theorem left_putVisit (kvs : List (Text × Bytes)) (e : Entry) :
    ((putVisit kvs (some e)).2.left (some e)).map (·.deadline) = some e.deadline := by
  unfold putVisit
  cases fieldsOf (some e) <;> rfl

theorem left_itemsVisit {p : List Bytes → List Bytes} (hp : ∀ items, p items ≠ []) (e : Entry) :
    ((itemsVisit p (some e)).2.left (some e)).map (·.deadline) = some e.deadline := by
  unfold itemsVisit
  cases itemsOf (some e) with
  | ok items =>
    dsimp only
    rw [storeItems_of_ne_nil (hp items)]
    rfl
  | error fault => rfl

theorem left_eraseVisit (names : List Text) (e : Entry) :
    (eraseVisit names (some e)).2.left (some e) = none ∨
      ((eraseVisit names (some e)).2.left (some e)).map (·.deadline) = some e.deadline := by
  obtain ⟨v, d⟩ := e
  cases v with
  | string _ | list _ => exact .inr rfl
  | hash fs =>
    rw [eraseVisit_hash]
    cases (eraseFields names fs).2 with
    | nil => exact .inl rfl
    | cons f fs => exact .inr rfl

end Keyspace

namespace Dispatch

variable {now d : Instant} {s : Keyspace} {b : Bytes} {n : Int} {r : Request}

theorem perform_setsFor (hr : r.SetsFor b n) (hn : 0 ≤ n) (hd : deadlineAfter now n = .ok d) :
    ∃ data, perform now s r = (.ok .ok, s.put (keyOf b) ⟨.string data, some d⟩) := by
  obtain ⟨name, args⟩ := r
  obtain ⟨hcommand, seconds, data, rest, hargs, hseconds⟩ := hr
  obtain rfl : args = b :: seconds :: data :: rest := hargs
  have hadmits : Command.admits .setex (b :: seconds :: data :: rest).length = true :=
    Command.admits_of_le rfl (Nat.le_add_left 3 _)
  refine ⟨data, ?_⟩
  rw [perform_eq_run hcommand hadmits, run, withInteger, hseconds]
  dsimp only
  rw [setWithLifetime, if_neg (Int.not_lt.mpr hn), setWithLifetime_eq data hn hd]
  rfl

theorem perform_expiresIn (hr : r.ExpiresIn b n) :
    perform now s r = trying .ofBool (s.expire now (keyOf b) n) := by
  obtain ⟨name, args⟩ := r
  obtain ⟨hcommand, seconds, rest, hargs, hseconds⟩ := hr
  obtain rfl : args = b :: seconds :: rest := hargs
  have hadmits : Command.admits .expire (b :: seconds :: rest).length = true :=
    Command.admits_of_le rfl (Nat.le_add_left 2 _)
  rw [perform_eq_run hcommand hadmits, run, withInteger, hseconds]

end Dispatch

namespace Moment

variable {m : Moment} {b : Bytes} {k : Text} {n : Int} {d : Instant} {r : Request} {e : Event} {es : List Event}

def Gives (m : Moment) (b : Bytes) (n : Int) (r : Request) : Prop :=
  r.SetsFor b n ∨ r.ExpiresIn b n ∧ m.liveAt (keyOf b) ≠ none

def Keeps (m : Moment) (b : Bytes) (r : Request) : Prop :=
  ((m.step (.request r)).liveAt (keyOf b)).map (·.deadline) = (m.liveAt (keyOf b)).map (·.deadline)

/-- Whether all requests leave a key as it is. -/
def Undisturbed (b : Bytes) : Moment → List Event → Prop
  | _, [] => True
  | m, .request r :: es => m.Keeps b r ∧ Undisturbed b (m.step (.request r)) es
  | m, .clock later :: es => Undisturbed b (m.step (.clock later)) es
  | m, .sweep :: es => Undisturbed b (m.step .sweep) es

structure RunsOut (m : Moment) (k : Text) (d : Instant) : Prop where
  live : d.le m.now = false → ∃ v, m.liveAt k = some ⟨v, some d⟩
  ended : d.le m.now = true → m.liveAt k = none

theorem runsOut_of_filter {v : Value}
    (h : m.liveAt k = (some ⟨v, some d⟩ : Option Entry).filter (!·.isExpired m.now)) : m.RunsOut k d := by
  have hexpired : (Entry.mk v (some d)).isExpired m.now = d.le m.now := rfl
  rw [Option.filter_some, hexpired] at h
  constructor
  · intro hlive
    rw [hlive] at h
    exact ⟨v, h⟩
  · intro hended
    rw [hended] at h
    exact h

theorem runsOut_of_setsFor (hn : 0 ≤ n) (hr : r.SetsFor b n) (hd : deadlineAfter m.now n = .ok d) :
    (m.step (.request r)).RunsOut (keyOf b) d := by
  obtain ⟨data, hperform⟩ := perform_setsFor (s := m.keyspace) hr hn hd
  refine runsOut_of_filter (v := .string data) ?_
  rw [liveAt_request, hperform]
  exact (live?_put _).trans (if_pos rfl)

theorem runsOut_of_gives (hn : 0 < n) (hr : m.Gives b n r) (hd : deadlineAfter m.now n = .ok d) :
    (m.step (.request r)).RunsOut (keyOf b) d := by
  rcases hr with hset | ⟨hexpire, hlive⟩
  · exact runsOut_of_setsFor hn.le hset hd
  · obtain ⟨e, he⟩ := Option.ne_none_iff_exists'.mp hlive
    refine runsOut_of_filter (v := e.value) ?_
    rw [liveAt_request, perform_expiresIn hexpire]
    exact live?_expire hn hd he

theorem RunsOut.request (h : m.RunsOut (keyOf b) d) (hr : m.Keeps b r) :
    (m.step (.request r)).RunsOut (keyOf b) d := by
  unfold Keeps at hr
  constructor
  · intro hlive
    obtain ⟨v, hv⟩ := h.live hlive
    rw [hv, Option.map_some, Option.map_eq_some_iff] at hr
    obtain ⟨⟨w, dw⟩, hw, rfl⟩ := hr
    exact ⟨w, hw⟩
  · intro hended
    rwa [h.ended hended, Option.map_none, Option.map_eq_none_iff] at hr

theorem RunsOut.clock (h : m.RunsOut k d) {later : Instant} (hl : m.now.le later = true) :
    (m.step (.clock later)).RunsOut k d := by
  cases hd : d.le m.now with
  | false =>
    obtain ⟨v, hv⟩ := h.live hd
    refine runsOut_of_filter (v := v) ?_
    rw [liveAt_clock hl, hv]
    rfl
  | true =>
    have hcome : d.le later = true := Binary64.le_trans hd hl
    constructor
    · intro hlive
      cases hcome.symm.trans hlive
    · intro
      rw [liveAt_clock hl, h.ended hd]
      rfl

theorem RunsOut.sweep (h : m.RunsOut k d) (hm : m.keyspace.keys.Nodup) : (m.step .sweep).RunsOut k d where
  live hlive := by
    rw [liveAt_sweep hm]
    exact h.live hlive
  ended hended := by
    rw [liveAt_sweep hm]
    exact h.ended hended

theorem RunsOut.after (h : m.RunsOut (keyOf b) d) (hm : m.keyspace.keys.Nodup) (hes : Forward m.now es)
    (hkept : m.Undisturbed b es) : (m.after es).RunsOut (keyOf b) d := by
  induction es generalizing m with
  | nil => exact h
  | cons e es ih =>
    obtain ⟨hf, hrest⟩ : Forward m.now [e] ∧ Forward (m.step e).now es := forward_append rfl hes
    have hnext : (m.step e).keyspace.keys.Nodup := nodup_step hm hf
    cases e with
    | request r => exact ih (h.request hkept.1) hnext hrest hkept.2
    | clock later => exact ih (h.clock hf.1) hnext hrest hkept
    | sweep => exact ih (h.sweep hm) hnext hrest hkept

theorem le_after {t : Instant} (h : t.le m.now = true) (hes : Forward m.now es) : t.le (m.after es).now = true := by
  have hkept : Kept fun m : Moment => t.le m.now = true :=
    ⟨fun h _ => h, fun h hl => Binary64.le_trans h hl, fun h => h⟩
  exact hkept.after h hes

theorem reply_ttl {v : Value} {q : ℚ} (h : m.liveAt (keyOf b) = some ⟨v, some d⟩)
    (hq : (d.sub m.now).toRat? = some q) : m.reply .ttl [b] = .ok (.integer (max 0 ⌈q⌉)) := by
  have hleft : (m.keyspace.timeToLive m.now (keyOf b)).1 = remaining m.now d := by
    have hlive : m.keyspace.live? m.now (keyOf b) = some ⟨v, some d⟩ := h
    rw [timeToLive, visit, hlive]
  rw [ttl_eq, hleft, remaining_of_toRat? hq]
  rfl

/-- The readings of the clock have values, and no rounding enters into the sum and the difference. -/
structure Exact (start now : Instant) (n : Int) (x₀ x : ℚ) : Prop where
  start_eq : start.toRat? = some x₀
  now_eq : now.toRat? = some x
  deadline : ∃ d, deadlineAfter start n = .ok d ∧ d.toRat? = some (x₀ + n) ∧ (d.sub now).toRat? = some (x₀ + n - x)

structure CountsDown (m : Moment) (b : Bytes) (n : Int) (left : ℚ) : Prop where
  live : 0 < left → m.liveAt (keyOf b) ≠ none ∧ m.reply .exist [b] = .ok (.integer 1)
  ttl : 0 < left → m.reply .ttl [b] = .ok (.integer ⌈left⌉) ∧ 1 ≤ ⌈left⌉ ∧ ⌈left⌉ ≤ n
  gone : left ≤ 0 → m.Gone b

theorem RunsOut.countsDown (h : m.RunsOut (keyOf b) d) (hm : m.keyspace.keys.Nodup) {x₀ x : ℚ}
    (hd : d.toRat? = some (x₀ + n)) (hx : m.now.toRat? = some x) (hleft : (d.sub m.now).toRat? = some (x₀ + n - x))
    (hle : x₀ ≤ x) : m.CountsDown b n (x₀ + n - x) := by
  have hcome : d.le m.now = true ↔ x₀ + n - x ≤ 0 := (Binary64.le_iff_of_toRat? hd hx).trans sub_nonpos.symm
  have hlive : 0 < x₀ + n - x → ∃ v, m.liveAt (keyOf b) = some ⟨v, some d⟩ := fun hpos =>
    h.live (Bool.eq_false_iff.mpr fun hended => hpos.not_ge (hcome.mp hended))
  constructor
  · intro hpos
    obtain ⟨v, hv⟩ := hlive hpos
    exact ⟨hv ▸ Option.some_ne_none _, exist_iff.mpr ⟨_, hv⟩⟩
  · intro hpos
    obtain ⟨v, hv⟩ := hlive hpos
    have hone : 1 ≤ ⌈x₀ + n - x⌉ := Int.one_le_ceil_iff.mpr hpos
    have hbound : ⌈x₀ + n - x⌉ ≤ n := Int.ceil_le.mpr (by linarith)
    rw [reply_ttl hv hleft, max_eq_right (zero_le_one.trans hone)]
    exact ⟨rfl, hone, hbound⟩
  · intro hnone
    exact gone_of_liveAt hm (h.ended (hcome.mpr hnone))

/-- Whole seconds, up to the greatest number below which all whole numbers are doubles, are added without rounding. -/
theorem exact_whole {start now : Instant} {i j : Int} (hi : 0 ≤ i) (hj : 0 ≤ j) (hn : 0 ≤ n)
    (hstart : start.toRat? = some (i : ℚ)) (hnow : now.toRat? = some (j : ℚ)) (hsum : i + n ≤ Binary64.wholeBound)
    (hbound : j ≤ Binary64.wholeBound) : Exact start now n i j := by
  obtain ⟨t, ht, htn⟩ := Binary64.toRat?_ofInt? (i := n) (abs_le.mpr (by omega))
  have hdeadline := Binary64.toRat?_add_whole hstart htn (abs_le.mpr (by omega))
  have hleft := Binary64.toRat?_sub_whole hdeadline hnow (abs_le.mpr (by omega))
  refine ⟨hstart, hnow, start.add t, deadlineAfter_of_ofInt? ht, ?_, ?_⟩
  · rw [hdeadline, Int.cast_add]
  · rw [hleft, Int.cast_sub, Int.cast_add]

theorem keeps_of_spares (hr : r.Spares b) : m.Keeps b r := congrArg _ (liveAt_request_of_spares hr)

theorem keeps_of_visit {α : Type} {f : Option Entry → α × Change} {e : Entry} (he : m.liveAt (keyOf b) = some e)
    (hr : (perform m.now m.keyspace r).2 = (m.keyspace.visit m.now (keyOf b) f).2)
    (hf : ((f (some e)).2.left (some e)).map (·.deadline) = some e.deadline) : m.Keeps b r := by
  rw [Keeps, liveAt_request, hr, live?_visit_kept he hf, he]
  rfl

theorem keeps_of_writes (hlive : m.liveAt (keyOf b) ≠ none) (hr : r.PushesTo b ∨ r.WritesFieldsOf b) :
    m.Keeps b r ∨ r.command? = some .hdel ∧ (m.step (.request r)).liveAt (keyOf b) = none := by
  obtain ⟨e, he⟩ := Option.ne_none_iff_exists'.mp hlive
  rcases hr with hpush | hwrites
  · have hvisit : (perform m.now m.keyspace r).2 = (m.keyspace.visit m.now (keyOf b) (itemsVisit (r.pushInto b ·))).2 :=
      congrArg Prod.snd (perform_push hpush m.now m.keyspace)
    exact .inl (keeps_of_visit he hvisit (left_itemsVisit (Request.pushInto_ne_nil hpush) e))
  rcases perform_writesFields hwrites m.now m.keyspace with ⟨kvs, done, -, -, hrun⟩ | ⟨hc, fs, -, hrun⟩
  · have hvisit : (perform m.now m.keyspace r).2 = (m.keyspace.visit m.now (keyOf b) (putVisit (pairs kvs))).2 :=
      congrArg Prod.snd hrun
    exact .inl (keeps_of_visit he hvisit (left_putVisit (pairs kvs) e))
  · have hvisit : (perform m.now m.keyspace r).2 =
        (m.keyspace.visit m.now (keyOf b) (eraseVisit (fs.map .ofBytes))).2 := congrArg Prod.snd hrun
    rcases left_eraseVisit (fs.map .ofBytes) e with hnone | hkept
    · have hbefore : m.keyspace.live? m.now (keyOf b) = some e := he
      refine .inr ⟨hc, ?_⟩
      rw [liveAt_request, hvisit, live?_visit, if_pos rfl, hbefore, hnone]
      rfl
    · exact .inl (keeps_of_visit he hvisit hkept)

structure Lifetimes (m : Moment) (b : Bytes) : Prop where
  countsDown : ∀ n r es x₀ x, 0 < n → m.Gives b n r → Forward m.now es → (m.step (.request r)).Undisturbed b es →
    Exact m.now ((m.step (.request r)).after es).now n x₀ x →
      ((m.step (.request r)).after es).CountsDown b n (x₀ + n - x)
  noSeconds : ∀ (r : Request) es, m.now ≠ .nan → r.SetsFor b 0 → Forward m.now es →
    (m.step (.request r)).Undisturbed b es →
      (dispatch m.now m.keyspace r).1 = .ok .ok ∧ ((m.step (.request r)).after es).Gone b
  spared : ∀ (later : Moment) (r : Request), r.Spares b → later.Keeps b r
  written : ∀ (later : Moment) (r : Request), later.liveAt (keyOf b) ≠ none → r.PushesTo b ∨ r.WritesFieldsOf b →
    later.Keeps b r ∨ r.command? = some .hdel ∧ (later.step (.request r)).liveAt (keyOf b) = none
  wholeSeconds : ∀ (start now : Instant) (i j n : Int), 0 ≤ i → 0 ≤ j → 0 ≤ n → start.toRat? = some (i : ℚ) →
    now.toRat? = some (j : ℚ) → i + n ≤ Binary64.wholeBound → j ≤ Binary64.wholeBound → Exact start now n i j

theorem countsDown_of_gives (hm : m.keyspace.keys.Nodup) (hn : 0 < n) (hr : m.Gives b n r) (hes : Forward m.now es)
    (hkept : (m.step (.request r)).Undisturbed b es) {x₀ x : ℚ}
    (hexact : Exact m.now ((m.step (.request r)).after es).now n x₀ x) :
    ((m.step (.request r)).after es).CountsDown b n (x₀ + n - x) := by
  obtain ⟨hstart, hnow, d, hd, hsum, hleft⟩ := hexact
  have hnodup : (m.step (.request r)).keyspace.keys.Nodup := nodup_step hm trivial
  have hout := (runsOut_of_gives hn hr hd).after hnodup hes hkept
  have hforward : m.now.le ((m.step (.request r)).after es).now = true :=
    le_after (m := m.step (.request r)) (Binary64.le_refl (Binary64.ne_nan_of_toRat? hstart)) hes
  have hle : x₀ ≤ x := (Binary64.le_iff_of_toRat? hstart hnow).mp hforward
  exact hout.countsDown (nodup_after hnodup hes) hsum hnow hleft hle

theorem gone_of_noSeconds (hm : m.keyspace.keys.Nodup) (hnan : m.now ≠ .nan) (hr : r.SetsFor b 0)
    (hes : Forward m.now es) (hkept : (m.step (.request r)).Undisturbed b es) :
    (dispatch m.now m.keyspace r).1 = .ok .ok ∧ ((m.step (.request r)).after es).Gone b := by
  have hd : deadlineAfter m.now 0 = .ok (m.now.add .zero) := deadlineAfter_of_ofInt? Binary64.ofInt?_zero
  have hnodup : (m.step (.request r)).keyspace.keys.Nodup := nodup_step hm trivial
  have hout := (runsOut_of_setsFor (Int.le_refl 0) hr hd).after hnodup hes hkept
  have hended := le_after (m := m.step (.request r)) (Binary64.add_zero_le hnan) hes
  obtain ⟨data, hperform⟩ := perform_setsFor (s := m.keyspace) hr (Int.le_refl 0) hd
  refine ⟨?_, gone_of_liveAt (nodup_after hnodup hes) (hout.ended hended)⟩
  rw [dispatch_eq, hperform]
  rfl

/-- A key that is given a lifetime is there until its deadline and tells how much is left of it, and from the deadline
on it is there for no request; given no seconds at all, it never is. -/
theorem lifetimes_count_down (hm : m.keyspace.keys.Nodup) (b : Bytes) : m.Lifetimes b where
  countsDown _ _ _ _ _ hn hr hes hkept hexact := countsDown_of_gives hm hn hr hes hkept hexact
  noSeconds _ _ hnan hr hes hkept := gone_of_noSeconds hm hnan hr hes hkept
  spared _ _ := keeps_of_spares
  written _ _ := keeps_of_writes
  wholeSeconds _ _ _ _ _ := exact_whole

def quarters (n : Int) : Instant := .ofUnits false (n * (Binary64.one / 4 : Nat))

def oneHash : Moment := ⟨quarters 10, [(keyOf [104], ⟨.hash [(.ofBytes [102], [118])], none⟩)]⟩

def untilThen (t : Instant) : List Event :=
  [.clock (quarters 24), .request (.of .hset [[104], [103], [119]]), .sweep, .request (.of .set [[107], [118]]),
    .clock t]

theorem lifetimes_count_down_untilThen :
    let m := oneHash.step (.request (.of .expire [[104], [49, 48]]))
    (m.after (untilThen (quarters 49))).reply .ttl [[104]] = .ok (.integer 1) ∧
      (m.after (untilThen (quarters 50))).Gone [104] ∧
      ((oneHash.step (.request (.of .setex [[104], [48], [118]]))).after [.sweep]).Gone [104] := by
  intro m
  have hcounts := lifetimes_count_down (m := oneHash) (List.nodup_singleton _) [104]
  have hgives : oneHash.Gives [104] 10 (.of .expire [[104], [49, 48]]) :=
    .inr ⟨⟨Request.command?_of .., _, _, rfl, by decide⟩, by decide +kernel⟩
  have hkept : ∀ t, m.Undisturbed [104] (untilThen t) := by
    refine fun t => ⟨?_, hcounts.spared _ _ (.inl ⟨by decide, by decide⟩), trivial⟩
    refine (hcounts.written _ _ (by decide +kernel) (.inr ?_)).resolve_right fun hdel => ?_
    · exact ⟨_, _, Request.command?_of .., rfl, rfl, by decide⟩
    · cases hdel.1
  have hdeadline : deadlineAfter oneHash.now 10 = .ok (oneHash.now.add (quarters 40)) :=
    deadlineAfter_of_ofInt? (by decide +kernel)
  have hstart : oneHash.now.toRat? = some (5 / 2 : ℚ) := by decide +kernel
  have hsum : (oneHash.now.add (quarters 40)).toRat? = some ((5 / 2 : ℚ) + (10 : Int)) := by decide +kernel
  have hcountsDown : ∀ t x, (quarters 24).le t = true → t.toRat? = some x →
      ((oneHash.now.add (quarters 40)).sub t).toRat? = some ((5 / 2 : ℚ) + (10 : Int) - x) →
        (m.after (untilThen t)).CountsDown [104] 10 ((5 / 2 : ℚ) + (10 : Int) - x) := by
    intro t x hl ht hleft
    have hforward : Forward oneHash.now (untilThen t) := ⟨by decide +kernel, hl, trivial⟩
    have hexact : Exact oneHash.now (m.after (untilThen t)).now 10 (5 / 2) x := ⟨hstart, ht, _, hdeadline, hsum, hleft⟩
    exact hcounts.countsDown 10 _ (untilThen t) (5 / 2) x (by decide) hgives hforward (hkept t) hexact
  refine ⟨?_, ?_, ?_⟩
  · have hcount := hcountsDown (quarters 49) (49 / 4) (by decide +kernel) (by decide +kernel) (by decide +kernel)
    have hceil : ⌈(5 / 2 : ℚ) + (10 : Int) - 49 / 4⌉ = 1 := by norm_num
    exact (hcount.ttl (by norm_num)).1.trans (by rw [hceil])
  · have hcount := hcountsDown (quarters 50) (25 / 2) (by decide +kernel) (by decide +kernel) (by decide +kernel)
    exact hcount.gone (by norm_num)
  · have hset : (Request.of .setex [[104], [48], [118]]).SetsFor [104] 0 :=
      ⟨Request.command?_of .., _, _, _, rfl, by decide⟩
    exact (hcounts.noSeconds _ [.sweep] (by decide +kernel) hset trivial trivial).2

end Moment

end RespStore
