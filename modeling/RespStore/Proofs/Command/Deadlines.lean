import RespStore.Proofs.Command.Frame
import RespStore.Proofs.Command.Representation
import RespStore.Proofs.Keyspace.Dated

/-! The deadline of a value. Four commands set a deadline or take it away; whatever else is done to a value leaves its
deadline as it is, and a new value starts without one. So the deadline that a value ends at was set in its own life. -/

namespace RespStore

open Keyspace Dispatch

def Argument.ending (now : Instant) (seconds : Bytes) : Option Instant :=
  match integer seconds with
  | .ok n => Keyspace.ending now n
  | .error _ => none

/-- The deadline that a command gives to a key, where it gives one; `some none` takes the deadline away. -/
def Command.redates (now : Instant) (k : Text) : Command → List Bytes → Option (Option Instant)
  | set, key :: _ :: _ => if keyOf key = k then some none else none
  | persist, key :: _ => if keyOf key = k then some none else none
  | setex, key :: seconds :: _ :: _ => if keyOf key = k then (Argument.ending now seconds).map some else none
  | expire, key :: seconds :: _ => if keyOf key = k then (Argument.ending now seconds).map some else none
  | _, _ => none

def Request.redates (now : Instant) (k : Text) (r : Request) : Option (Option Instant) :=
  r.command?.bind fun c => c.redates now k r.args

def Command.changesPart : Command → Bool
  | hset | hmset | hdel | lpush | rpush => true
  | _ => false

def Request.changesPart (r : Request) : Bool := r.command?.any (·.changesPart)

theorem Request.redates_of_changesPart {r : Request} (hr : r.changesPart = true) (now : Instant) (k : Text) :
    r.redates now k = none := by
  unfold changesPart at hr
  unfold redates
  cases hc : r.command? with
  | none => rfl
  | some c =>
    rw [hc] at hr
    cases c with
    | hset | hmset | hdel | lpush | rpush => rfl
    | _ => cases hr

namespace Dispatch

variable {now : Instant} {j k : Text} {s : Keyspace} {c : Command} {args : List Bytes}

theorem dated_withInteger (seconds : Bytes) {f : Int → Outcome}
    (hf : ∀ n, Dated now k (if j = k then (ending now n).map some else none) s (f n).2) :
    Dated now k (if j = k then (Argument.ending now seconds).map some else none) s (withInteger seconds s f).2 := by
  unfold Argument.ending withInteger
  cases Argument.integer seconds with
  | ok n => exact hf n
  | error e => exact Dated.of_none (dated_refl now k s) rfl

theorem dated_setex (hnow : now ≠ .nan) (key data : Bytes) (seconds : Int) :
    Dated now k (if keyOf key = k then (ending now seconds).map some else none) s
      (setWithLifetime now key data s seconds).2 := by
  unfold setWithLifetime
  by_cases hneg : seconds < 0
  · rw [if_pos hneg]
    exact Dated.of_none (dated_refl now k s) (ending_of_nonpos (Int.le_of_lt hneg))
  · rw [if_neg hneg]
    exact dated_setWithLifetime hnow data seconds

theorem dated_of_isReading (hc : c.isReading = true) (name : Text) :
    Dated now k none s (run now s name c args).2 := by
  have hlooks : Looks now (named args c) fun s => run now s name c args := run_looks hc name args
  exact dated_of_live? fun e he => ((hlooks.trimmed s).live? k).symm.trans he

theorem dated_of_namesFields (hc : c.namesFields = true) (name : Text) (ha : c.admits args.length = true) :
    Dated now k none s (run now s name c args).2 := by
  obtain ⟨key, f, -, hf, hrun⟩ := run_fieldWise hc name ha
  rw [hrun]
  exact dated_visit hf.deadline

theorem run_dated (hnow : now ≠ .nan) (name : Text) (ha : c.admits args.length = true) :
    Dated now k (c.redates now k args) s (run now s name c args).2 := by
  cases shape c args with
  | few lacking => cases lacking.symm.trans ha
  | hello | pong | ping | echo | quit | get | exist | ttl | type | keys | dbsize | hkeys | hvals | hgetall | llen
  | lrange => exact dated_of_isReading rfl name
  | hset | hget | hmset | hmget | hdel | hexists => exact dated_of_namesFields rfl name ha
  | flushdb | flushall => exact dated_of_live? fun e he => by cases he
  | del =>
    exact dated_of_live? fun e he => live?_of_visitEach (fun x e h => by cases x <;> cases h) (args.map keyOf) he
  | lpush | rpush => exact dated_changeItems _
  | set key data => exact dated_put ⟨.string data, none⟩
  | persist => exact dated_persist
  | setex key seconds data => exact dated_withInteger seconds fun n => dated_setex hnow key data n
  | expire key seconds => exact dated_withInteger seconds fun n => dated_expire n

theorem redates_of_not_admits (ha : ¬c.admits args.length = true) : c.redates now k args = none := by
  unfold Command.redates
  split
  case h_5 => rfl
  -- Where a deadline is given, the arguments are as many as the command asks for.
  all_goals exact absurd (by simp [Command.admits, Command.leastArguments, Command.takesPairs]) ha

theorem perform_dated (hnow : now ≠ .nan) (r : Request) (k : Text) (s : Keyspace) :
    Dated now k (r.redates now k) s (perform now s r).2 := by
  unfold perform Request.redates Request.command?
  cases Command.ofText? r.name with
  | none => exact dated_refl now k s
  | some c =>
    dsimp only [Option.bind_some]
    by_cases ha : c.admits r.args.length = true
    · rw [if_pos ha]
      exact run_dated hnow r.name ha
    · rw [if_neg ha, redates_of_not_admits ha]
      exact dated_refl now k s

end Dispatch

namespace Moment

variable {m : Moment} {es : List Event} {k : Text} {d : Instant}

def liveAt (m : Moment) (k : Text) : Option Entry := m.keyspace.live? m.now k

def deadlineOf (m : Moment) (k : Text) : Option Instant := m.keyspace.deadlineOf m.now k

structure Redated (m : Moment) (r : Request) (k : Text) : Prop where
  given : ∀ {d e}, r.redates m.now k = some d → (m.step (.request r)).liveAt k = some e → e.deadline = d
  kept : ∀ {x e}, r.redates m.now k = none → m.liveAt k = some x → (m.step (.request r)).liveAt k = some e →
    e.deadline = x.deadline
  fresh : ∀ {e}, r.redates m.now k = none → m.liveAt k = none → (m.step (.request r)).liveAt k = some e →
    e.deadline = none

/-- A request gave the key this deadline, and the key has been live with it ever since. -/
def GivenInLife (m : Moment) (es : List Event) (k : Text) (d : Instant) : Prop :=
  ∃ before r rest, es = before ++ .request r :: rest ∧ r.redates (m.after before).now k = some (some d) ∧
    ∀ p, p <+: rest → (m.after (before ++ .request r :: p)).deadlineOf k = some d

theorem deadline_request (hnow : m.now ≠ .nan) (r : Request) {e : Entry}
    (he : (m.step (.request r)).liveAt k = some e) :
    e.deadline = (r.redates m.now k).getD (m.deadlineOf k) := by
  rw [liveAt, step, dispatch_eq] at he
  exact perform_dated hnow r k m.keyspace e he

theorem redated (hnow : m.now ≠ .nan) (r : Request) (k : Text) : m.Redated r k where
  given hd he := by rw [deadline_request hnow r he, hd, Option.getD_some]
  kept hnone hx he := by
    rw [deadline_request hnow r he, hnone, Option.getD_none, deadlineOf, Keyspace.deadlineOf]
    exact congrArg (Option.bind · _) hx
  fresh hnone hx he := by
    rw [deadline_request hnow r he, hnone, Option.getD_none, deadlineOf, Keyspace.deadlineOf]
    exact congrArg (Option.bind · _) hx

theorem deadlineOf_eq_some_iff : m.deadlineOf k = some d ↔ ∃ e, m.liveAt k = some e ∧ e.deadline = some d :=
  Option.bind_eq_some_iff

theorem liveAt_clock {later : Instant} (hl : m.now.le later = true) :
    (m.step (.clock later)).liveAt k = (m.liveAt k).filter (!·.isExpired later) := live?_later hl

theorem deadlineOf_step (hnow : m.now ≠ .nan) (hm : m.keyspace.keys.Nodup) {e : Event} (he : Forward m.now [e])
    (h : (m.step e).deadlineOf k = some d) :
    m.deadlineOf k = some d ∨ ∃ r, e = .request r ∧ r.redates m.now k = some (some d) := by
  obtain ⟨x, hx, hxd⟩ := deadlineOf_eq_some_iff.mp h
  cases e with
  | request r =>
    have hgiven := deadline_request hnow r hx
    rw [hxd] at hgiven
    cases hr : r.redates m.now k with
    | none =>
      rw [hr] at hgiven
      exact .inl hgiven.symm
    | some given =>
      rw [hr] at hgiven
      exact .inr ⟨r, rfl, hr.trans (congrArg some hgiven.symm)⟩
  | clock later =>
    rw [liveAt_clock he.1] at hx
    exact .inl (deadlineOf_eq_some_iff.mpr ⟨x, (Option.filter_eq_some_iff.mp hx).1, hxd⟩)
  | sweep =>
    have hsame : (m.step .sweep).liveAt k = m.liveAt k := live?_liveEntries hm
    exact .inl (deadlineOf_eq_some_iff.mpr ⟨x, hsame.symm.trans hx, hxd⟩)

theorem GivenInLife.cons {e : Event} (h : (m.step e).GivenInLife es k d) : m.GivenInLife (e :: es) k d := by
  obtain ⟨before, r, rest, rfl, hr, hheld⟩ := h
  exact ⟨e :: before, r, rest, rfl, hr, hheld⟩

/-- A deadline was given to the key in the course of the events, or the key has had it all along. -/
theorem given_or_held (hm : m.Coherent) (hsound : m.Sound) (hes : Forward m.now es)
    (h : (m.after es).deadlineOf k = some d) :
    m.GivenInLife es k d ∨ ∀ p, p <+: es → (m.after p).deadlineOf k = some d := by
  induction es generalizing m with
  | nil =>
    refine .inr fun p hp => ?_
    rw [List.prefix_nil.mp hp]
    exact h
  | cons e es ih =>
    obtain ⟨he, hrest⟩ : Forward m.now [e] ∧ Forward (m.step e).now es := forward_append rfl hes
    have hnext : (m.step e).Sound := sound_kept.after hsound he
    rcases ih (hm.step e) hnext hrest h with hgiven | hheld
    · exact .inl hgiven.cons
    rcases deadlineOf_step hsound.now_ne_nan hm.nodup he (hheld [] List.nil_prefix) with hbefore | ⟨r, rfl, hr⟩
    · refine .inr fun p hp => ?_
      cases p with
      | nil => exact hbefore
      | cons e' p =>
        obtain ⟨rfl, hprefix⟩ := List.cons_prefix_cons.mp hp
        exact hheld p hprefix
    · exact .inl ⟨[], r, es, rfl, hr, hheld⟩

theorem exists_deadline_of_ended {later : Instant} (hl : m.now.le later = true) {e : Entry}
    (he : m.liveAt k = some e) (hended : (m.step (.clock later)).liveAt k = none) :
    ∃ d, m.deadlineOf k = some d ∧ d.le later = true := by
  rw [liveAt_clock hl, he, Option.filter_eq_none_iff] at hended
  have hexpired : e.isExpired later = true := by simpa using hended e rfl
  unfold Entry.isExpired at hexpired
  cases hd : e.deadline with
  | none =>
    rw [hd] at hexpired
    cases hexpired
  | some d =>
    rw [hd] at hexpired
    exact ⟨d, deadlineOf_eq_some_iff.mpr ⟨e, he, hd⟩, hexpired⟩

/-- Whatever has come before, a request leaves the deadline of every key as it is unless it is one of the four that give
another, and what it creates has none; a write to a hash or a list is none of the four. So every deadline was given in
the life of the value that has it, and no value ends at the deadline of another. -/
theorem deadlines_follow {start : Instant} (hstart : start ≠ .nan) {es : List Event} (hes : Forward start es) :
    let m := (Moment.mk start []).after es
    (∀ r k, m.Redated r k) ∧ (∀ (r : Request) k, r.changesPart = true → r.redates m.now k = none) ∧
      (∀ k d, m.deadlineOf k = some d → (Moment.mk start []).GivenInLife es k d) ∧
      ∀ later k e, m.now.le later = true → m.liveAt k = some e → (m.step (.clock later)).liveAt k = none →
        ∃ d, d.le later = true ∧ (Moment.mk start []).GivenInLife es k d := by
  intro m
  have hsound : m.Sound := sound_kept.after (sound_empty hstart) hes
  have hgiven : ∀ k d, m.deadlineOf k = some d → (Moment.mk start []).GivenInLife es k d := by
    intro k d hd
    refine (given_or_held (coherent_empty start) (sound_empty hstart) hes hd).resolve_right fun hheld => ?_
    cases hheld [] List.nil_prefix
  refine ⟨redated hsound.now_ne_nan, fun r k hr => Request.redates_of_changesPart hr m.now k, hgiven, ?_⟩
  intro later k e hl he hended
  obtain ⟨d, hd, hcome⟩ := exists_deadline_of_ended hl he hended
  exact ⟨d, hcome, hgiven k d hd⟩

def secondLife : List Event :=
  [.request (.of .setex [[107], [49], [118]]), .clock (.ofUnits false (2 * Binary64.one)),
    .request (.of .hset [[107], [102], [118]]), .request (.of .expire [[107], [53]])]

theorem deadlines_follow_secondLife :
    let m := (Moment.mk .zero []).after secondLife
    m.deadlineOf (keyOf [107]) = some (.ofUnits false (7 * Binary64.one)) ∧
      (Moment.mk .zero []).GivenInLife secondLife (keyOf [107]) (.ofUnits false (7 * Binary64.one)) ∧
      m.Redated (.of .hset [[107], [103], [119]]) (keyOf [107]) := by
  have hstart : Binary64.zero ≠ .nan := by decide
  have hforward : Forward .zero secondLife := ⟨by decide +kernel, trivial⟩
  have hd : ((Moment.mk .zero []).after secondLife).deadlineOf (keyOf [107]) =
      some (.ofUnits false (7 * Binary64.one)) := by decide +kernel
  obtain ⟨hredated, -, hgiven, -⟩ := deadlines_follow hstart hforward
  exact ⟨hd, hgiven _ _ hd, hredated _ _⟩

end Moment

end RespStore
