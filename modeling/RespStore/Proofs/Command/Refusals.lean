import RespStore.Proofs.Command.Answer
import RespStore.Proofs.Keyspace.Kinds

/-! What a request is refused for. There are five reasons, looked at in a fixed order, and a request is refused for the
first that applies. Where none does it is answered, and the answer is no error. -/

namespace RespStore

open Keyspace Dispatch Numeral

def Argument.Spells (data : Bytes) (n : Int) : Prop :=
  ∃ w : Spelling, w.toBytes = data ∧ w.number = n ∧ least ≤ n ∧ n ≤ greatest

section Argument

variable {data : Bytes} {n : Int}

theorem Argument.integer_eq_ok_iff (hshort : ∀ k, ¬Overlong k data) : integer data = .ok n ↔ Spells data n := by
  constructor
  · intro h
    by_cases hw : ∃ w : Spelling, w.toBytes = data
    · obtain ⟨w, rfl⟩ := hw
      rw [integer_toBytes, if_neg fun hlong => hshort _ ⟨w, hlong, rfl, rfl⟩] at h
      split at h
      · rename_i hbounds
        obtain rfl := Except.ok.inj h
        exact ⟨w, rfl, rfl, hbounds⟩
      · cases h
    · rw [integer_of_unwritten (not_exists.mp hw)] at h
      cases h
  · rintro ⟨w, rfl, rfl, hbounds⟩
    rw [integer_toBytes, if_neg fun hlong => hshort _ ⟨w, hlong, rfl, rfl⟩, if_pos hbounds]

theorem Argument.integer_of_not_spells (hshort : ∀ k, ¬Overlong k data) (h : ∀ n, ¬Spells data n) :
    integer data = .error (.refused .notAnInteger) := by
  by_cases hw : ∃ w : Spelling, w.toBytes = data
  · obtain ⟨w, rfl⟩ := hw
    rw [integer_toBytes, if_neg fun hlong => hshort _ ⟨w, hlong, rfl, rfl⟩,
      if_neg fun hbounds => h w.number ⟨w, rfl, rfl, hbounds⟩]
  · exact integer_of_unwritten (not_exists.mp hw)

theorem Argument.Spells.unique (hshort : ∀ k, ¬Overlong k data) {m : Int} (hn : Spells data n) (hm : Spells data m) :
    n = m := by
  have hread : integer data = .ok n := (integer_eq_ok_iff hshort).mpr hn
  rw [(integer_eq_ok_iff hshort).mpr hm] at hread
  exact (Except.ok.inj hread).symm

theorem Argument.Spells.le_greatest (hn : Spells data n) : n ≤ greatest := by
  obtain ⟨w, -, -, -, h⟩ := hn
  exact h

end Argument

def Command.kind? : Command → Option Kind
  | get => some .string
  | hset | hget | hmset | hmget | hdel | hexists | hkeys | hvals | hgetall => some .hash
  | lpush | rpush | llen | lrange => some .list
  | _ => none

inductive Refusal where
  | unknownCommand | wrongArity | notAnInteger | invalidExpireTime | wrongType
deriving DecidableEq

namespace Refusal

/-- The place in the order in which the reasons are looked at. -/
def rank : Refusal → Nat
  | unknownCommand => 0
  | wrongArity => 1
  | notAnInteger => 2
  | invalidExpireTime => 3
  | wrongType => 4

theorem rank_injective : Function.Injective rank := by
  intro v w h
  cases v <;> cases w <;> first | rfl | cases h

def error (name : Text) : Refusal → ReplyError
  | unknownCommand => .unknownCommand name
  | wrongArity => .wrongArity name
  | notAnInteger => .notAnInteger
  | invalidExpireTime => .invalidExpireTime
  | wrongType => .wrongType

def Applies (now : Instant) (s : Keyspace) (r : Request) : Refusal → Prop
  | unknownCommand => r.command? = none
  | wrongArity => ∃ c, r.command? = some c ∧
      (r.args.length < c.leastArguments ∨ c.takesPairs = true ∧ r.args.length % 2 = 0)
  | notAnInteger => ∃ data ∈ r.numerals, ∀ n, ¬Argument.Spells data n
  | invalidExpireTime => r.command? = some .setex ∧ ∃ data ∈ r.numerals, ∃ n < 0, Argument.Spells data n
  | wrongType => ∃ c kind key, r.command? = some c ∧ c.kind? = some kind ∧ r.args.head? = some key ∧
      s.HoldsOther now (keyOf key) kind

def letter : Refusal → Char
  | unknownCommand => 'u'
  | wrongArity => 'w'
  | notAnInteger => 'v'
  | invalidExpireTime => 'i'
  | wrongType => 'G'

theorem getElem?_line (name : Text) (v : Refusal) : (v.error name).line[4]? = some (.char v.letter) := by
  cases v <;> rfl

theorem letter_injective : Function.Injective letter := by
  intro v w h
  cases v <;> cases w <;> first | rfl | exact absurd h (by decide)

theorem line_injective (name : Text) : Function.Injective fun v => (error name v).line := by
  intro v w h
  have hletter := congrArg (·[4]?) h
  simp only [getElem?_line] at hletter
  exact letter_injective (Glyph.char.inj (Option.some.inj hletter))

end Refusal

/-- Asks for what is left of a lifetime whose end is no finite time away. -/
def Request.Untold (now : Instant) (s : Keyspace) (r : Request) : Prop :=
  r.command? = some .ttl ∧ ∃ key e d, r.args.head? = some key ∧ s.live? now (keyOf key) = some e ∧
    e.deadline = some d ∧ ∀ negative m, d.sub now ≠ .finite negative m

namespace Dispatch

/-- The outcome of a request by the first reason to refuse it, if there is one. -/
inductive Ruled (now : Instant) (s : Keyspace) (r : Request) : Outcome → Prop
  | refuse {v : Refusal} {t : Keyspace} : v.Applies now s r → (∀ w : Refusal, w.rank < v.rank → ¬w.Applies now s r) →
      Ruled now s r (.error (.refused (v.error r.name)), t)
  | answer {reply : Reply} {t : Keyspace} : (∀ v : Refusal, ¬v.Applies now s r) → reply.isError = false →
      Ruled now s r (.ok reply, t)
  | untold {f : Fault} {t : Keyspace} : (∀ v : Refusal, ¬v.Applies now s r) → r.Untold now s →
      Ruled now s r (.error (.fault f), t)

variable {α : Type} {now : Instant} {s t : Keyspace} {name : Text} {args : List Bytes} {c : Command} {kind : Kind}
  {key data : Bytes}

section Admitted

theorem admits_iff {n : Nat} :
    c.admits n = true ↔ ¬(n < c.leastArguments ∨ c.takesPairs = true ∧ n % 2 = 0) := by
  cases h : c.takesPairs <;> simp [Command.admits, h]

theorem numerals_eq (hr : Command.ofText? name = some c) : Request.numerals ⟨name, args⟩ = c.numerals args := by
  have hcommand : Request.command? ⟨name, args⟩ = some c := hr
  rw [Request.numerals, hcommand]
  rfl

theorem not_unknown (hr : Command.ofText? name = some c) : ¬Refusal.unknownCommand.Applies now s ⟨name, args⟩ := by
  intro h
  cases hr.symm.trans h

theorem not_miscounted (hr : Command.ofText? name = some c) (hc : c.admits args.length = true) :
    ¬Refusal.wrongArity.Applies now s ⟨name, args⟩ := by
  rintro ⟨b, hb, h⟩
  obtain rfl := Option.some.inj (hr.symm.trans hb)
  exact admits_iff.mp hc h

structure Numbered (c : Command) (args : List Bytes) : Prop where
  spelled : ∀ data ∈ c.numerals args, ∃ n, Argument.Spells data n
  timely : c = .setex → ∀ data ∈ c.numerals args, ∀ n < 0, ¬Argument.Spells data n

theorem numbered_of_nil (h : c.numerals args = []) : Numbered c args where
  spelled := by simp [h]
  timely := by simp [h]

theorem numbered_of_ne_setex (hc : c ≠ .setex) (h : ∀ data ∈ c.numerals args, ∃ n, Argument.Spells data n) :
    Numbered c args where
  spelled := h
  timely hs := absurd hs hc

theorem not_misread (hr : Command.ofText? name = some c) (h : ∀ data ∈ c.numerals args, ∃ n, Argument.Spells data n) :
    ¬Refusal.notAnInteger.Applies now s ⟨name, args⟩ := by
  rintro ⟨data, hdata, hspells⟩
  rw [numerals_eq hr] at hdata
  obtain ⟨n, hn⟩ := h data hdata
  exact hspells n hn

theorem eq_wrongType_of_applies (hr : Command.ofText? name = some c) (hc : c.admits args.length = true)
    (hn : Numbered c args) {v : Refusal} (hv : v.Applies now s ⟨name, args⟩) : v = .wrongType := by
  cases v with
  | unknownCommand => exact absurd hv (not_unknown hr)
  | wrongArity => exact absurd hv (not_miscounted hr hc)
  | notAnInteger => exact absurd hv (not_misread hr hn.spelled)
  | invalidExpireTime =>
    obtain ⟨hsetex, data, hdata, n, hneg, hspells⟩ := hv
    obtain rfl := Option.some.inj (hr.symm.trans hsetex)
    rw [numerals_eq hr] at hdata
    exact absurd hspells (hn.timely rfl data hdata n hneg)
  | wrongType => rfl

theorem none_applies (hr : Command.ofText? name = some c) (hc : c.admits args.length = true) (hn : Numbered c args)
    (hk : c.kind? = none) (v : Refusal) : ¬v.Applies now s ⟨name, args⟩ := by
  intro hv
  obtain rfl := eq_wrongType_of_applies hr hc hn hv
  obtain ⟨b, kind, key, hb, hkind, -⟩ := hv
  obtain rfl := Option.some.inj (hr.symm.trans hb)
  cases hk.symm.trans hkind

theorem ruled_expecting (hr : Command.ofText? name = some c) (hc : c.admits args.length = true) (hn : Numbered c args)
    (hk : c.kind? = some kind) (hkey : args.head? = some key) {x : Except Failure α × Keyspace}
    (hx : s.Expects now (keyOf key) kind x) {f : α → Reply} (hf : ∀ a, (f a).isError = false) :
    Ruled now s ⟨name, args⟩ (trying f x) := by
  by_cases hother : s.HoldsOther now (keyOf key) kind
  · have happlies : Refusal.wrongType.Applies now s ⟨name, args⟩ := ⟨c, kind, key, hr, hk, hkey, hother⟩
    rw [trying, hx.refused hother]
    refine .refuse happlies fun w hw hearlier => ?_
    obtain rfl := eq_wrongType_of_applies hr hc hn hearlier
    exact Nat.lt_irrefl _ hw
  · obtain ⟨a, ha⟩ := hx.done hother
    rw [trying, ha]
    refine .answer (fun v hv => ?_) (hf a)
    obtain rfl := eq_wrongType_of_applies hr hc hn hv
    obtain ⟨b, kind', key', hb, hkind, hhead, h⟩ := hv
    obtain rfl := Option.some.inj (hr.symm.trans hb)
    obtain rfl := Option.some.inj (hk.symm.trans hkind)
    obtain rfl := Option.some.inj (hkey.symm.trans hhead)
    exact hother h

theorem ruled_withInteger (hr : Command.ofText? name = some c) (hc : c.admits args.length = true)
    (hdata : data ∈ c.numerals args) (hshort : ∀ k, ¬Overlong k data) {f : Int → Outcome}
    (hf : ∀ n, Argument.Spells data n → Ruled now s ⟨name, args⟩ (f n)) :
    Ruled now s ⟨name, args⟩ (withInteger data s f) := by
  by_cases h : ∃ n, Argument.Spells data n
  · obtain ⟨n, hn⟩ := h
    rw [withInteger, (Argument.integer_eq_ok_iff hshort).mpr hn]
    exact hf n hn
  · have hspells : ∀ n, ¬Argument.Spells data n := not_exists.mp h
    have happlies : Refusal.notAnInteger.Applies now s ⟨name, args⟩ := ⟨data, by rwa [numerals_eq hr], hspells⟩
    rw [withInteger, Argument.integer_of_not_spells hshort hspells]
    refine .refuse happlies fun w hw => ?_
    cases w with
    | unknownCommand => exact not_unknown hr
    | wrongArity => exact not_miscounted hr hc
    | notAnInteger | invalidExpireTime | wrongType => simp [Refusal.rank] at hw

end Admitted

section Timed

variable {n : Int}

theorem ruled_setWithLifetime {value : Bytes} (hr : Command.ofText? name = some .setex)
    (hc : Command.admits .setex (key :: data :: value :: args).length = true) (hshort : ∀ k, ¬Overlong k data)
    (hn : Argument.Spells data n) :
    Ruled now s ⟨name, key :: data :: value :: args⟩ (setWithLifetime now key value s n) := by
  have hspelled : ∀ data' ∈ [data], ∃ n, Argument.Spells data' n := List.forall_mem_singleton.mpr ⟨n, hn⟩
  unfold setWithLifetime
  by_cases hneg : n < 0
  · have hnumerals : Request.numerals ⟨name, key :: data :: value :: args⟩ = [data] := numerals_eq hr
    have happlies : Refusal.invalidExpireTime.Applies now s ⟨name, key :: data :: value :: args⟩ :=
      ⟨hr, data, by rw [hnumerals]; exact List.mem_cons_self, n, hneg, hn⟩
    rw [if_pos hneg]
    refine .refuse happlies fun w hw => ?_
    cases w with
    | unknownCommand => exact not_unknown hr
    | wrongArity => exact not_miscounted hr hc
    | notAnInteger => exact not_misread hr hspelled
    | invalidExpireTime | wrongType => simp [Refusal.rank] at hw
  · have hnumbered : Numbered .setex (key :: data :: value :: args) := by
      refine ⟨hspelled, fun _ => List.forall_mem_singleton.mpr fun m hm hspells => ?_⟩
      exact hneg (hn.unique hshort hspells ▸ hm)
    obtain ⟨d, hd⟩ : ∃ d, deadlineAfter now n = .ok d := deadlineAfter_ok (Int.not_lt.mp hneg) hn.le_greatest
    rw [if_neg hneg, Keyspace.setWithLifetime, if_neg hneg, hd]
    exact .answer (none_applies hr hc hnumbered rfl) rfl

theorem exists_expire (hn : n ≤ Argument.greatest) (k : Text) : ∃ b, (s.expire now k n).1 = .ok b := by
  rw [expire, visit]
  cases s.live? now k with
  | none => exact ⟨false, rfl⟩
  | some e =>
    dsimp only
    split
    · exact ⟨true, rfl⟩
    · obtain ⟨d, hd⟩ : ∃ d, deadlineAfter now n = .ok d := deadlineAfter_ok (by omega) hn
      rw [hd]
      exact ⟨true, rfl⟩

theorem ruled_timeToLive (hr : Command.ofText? name = some .ttl) :
    Ruled now s ⟨name, key :: args⟩ (trying .integer (s.timeToLive now (keyOf key))) := by
  have hnone : ∀ v : Refusal, ¬v.Applies now s ⟨name, key :: args⟩ := none_applies hr rfl (numbered_of_nil rfl) rfl
  rw [trying, timeToLive, visit]
  cases he : s.live? now (keyOf key) with
  | none => exact .answer hnone rfl
  | some e =>
    obtain ⟨v, _ | d⟩ := e
    · exact .answer hnone rfl
    · dsimp only
      cases hd : remaining now d with
      | ok n => exact .answer hnone rfl
      | error x =>
        obtain ⟨⟨f, rfl⟩, hsub⟩ := untold_of_remaining hd
        exact .untold hnone ⟨hr, key, _, d, rfl, he, rfl, hsub⟩

end Timed

theorem run_ruled (hr : Command.ofText? name = some c) (hc : c.admits args.length = true)
    (hshort : ∀ data ∈ c.numerals args, ∀ k, ¬Overlong k data) : Ruled now s ⟨name, args⟩ (run now s name c args) := by
  cases shape c args with
  | few lacking => cases lacking.symm.trans hc
  | hello | quit | del | exist | dbsize | flushdb | flushall | pong | ping | echo | persist | keys | set =>
    exact .answer (none_applies hr hc (numbered_of_nil rfl) rfl) rfl
  | type => exact .answer (none_applies hr hc (numbered_of_nil rfl) rfl) (isError_kindLine _)
  | ttl => exact ruled_timeToLive hr
  | setex key seconds data =>
    have hseconds : ∀ k, ¬Overlong k seconds := hshort seconds List.mem_cons_self
    exact ruled_withInteger hr hc List.mem_cons_self hseconds fun n hn => ruled_setWithLifetime hr hc hseconds hn
  | expire key seconds more =>
    refine ruled_withInteger hr hc List.mem_cons_self (hshort seconds List.mem_cons_self) fun n hn => ?_
    have hspelled : ∀ data ∈ [seconds], ∃ n, Argument.Spells data n := List.forall_mem_singleton.mpr ⟨n, hn⟩
    have hnumbered : Numbered .expire (key :: seconds :: more) := numbered_of_ne_setex (by decide) hspelled
    obtain ⟨b, hb⟩ : ∃ b, (s.expire now (keyOf key) n).1 = .ok b := exists_expire hn.le_greatest (keyOf key)
    rw [trying, hb]
    exact .answer (none_applies hr hc hnumbered rfl) rfl
  | get => exact ruled_expecting hr hc (numbered_of_nil rfl) rfl rfl expects_get Reply.isError_ofBytes?
  | hset | hmset => exact ruled_expecting hr hc (numbered_of_nil rfl) rfl rfl (expects_putFields _) fun _ => rfl
  | hget =>
    exact ruled_expecting hr hc (numbered_of_nil rfl) rfl rfl (expects_readFields _) Reply.isError_ofBytes?
  | hexists | hmget | hkeys | hvals | hgetall =>
    exact ruled_expecting hr hc (numbered_of_nil rfl) rfl rfl (expects_readFields _) fun _ => rfl
  | hdel => exact ruled_expecting hr hc (numbered_of_nil rfl) rfl rfl (expects_deleteFields _) fun _ => rfl
  | lpush | rpush => exact ruled_expecting hr hc (numbered_of_nil rfl) rfl rfl (expects_changeItems _) fun _ => rfl
  | llen => exact ruled_expecting hr hc (numbered_of_nil rfl) rfl rfl (expects_readItems _) fun _ => rfl
  | lrange key start stop more =>
    have hstop : stop ∈ [start, stop] := List.mem_cons_of_mem _ List.mem_cons_self
    refine ruled_withInteger hr hc List.mem_cons_self (hshort start List.mem_cons_self) fun i hi => ?_
    refine ruled_withInteger hr hc hstop (hshort stop hstop) fun j hj => ?_
    have hspelled : ∀ data ∈ [start, stop], ∃ n, Argument.Spells data n :=
      List.forall_mem_cons.mpr ⟨⟨i, hi⟩, List.forall_mem_singleton.mpr ⟨j, hj⟩⟩
    have hnumbered : Numbered .lrange (key :: start :: stop :: more) := numbered_of_ne_setex (by decide) hspelled
    exact ruled_expecting hr hc hnumbered rfl rfl (expects_readItems _) fun _ => rfl

theorem perform_ruled {r : Request} (hshort : ∀ data ∈ r.numerals, ∀ k, ¬Overlong k data) :
    Ruled now s r (perform now s r) := by
  obtain ⟨name, args⟩ := r
  unfold perform
  cases hr : Command.ofText? name with
  | none =>
    have happlies : Refusal.unknownCommand.Applies now s ⟨name, args⟩ := hr
    exact .refuse happlies fun w hw => absurd hw (Nat.not_lt_zero _)
  | some c =>
    dsimp only
    split
    · rename_i hc
      rw [numerals_eq hr] at hshort
      exact run_ruled hr hc hshort
    · rename_i hc
      have happlies : Refusal.wrongArity.Applies now s ⟨name, args⟩ :=
        ⟨c, hr, Decidable.of_not_not fun h => hc (admits_iff.mpr h)⟩
      refine .refuse happlies fun w hw => ?_
      cases w with
      | unknownCommand => exact not_unknown hr
      | wrongArity | notAnInteger | invalidExpireTime | wrongType => simp [Refusal.rank] at hw

theorem Ruled.told_iff {r : Request} {x : Outcome} (h : Ruled now s r x) {v : Refusal}
    (hfirst : ∀ w : Refusal, w.rank < v.rank → ¬w.Applies now s r) :
    told x.1 = .ok (.error (v.error r.name).line) ↔ v.Applies now s r := by
  cases h with
  | @refuse u t hu hearlier =>
    constructor
    · intro hline
      obtain rfl := Refusal.line_injective r.name (Reply.error.inj (Except.ok.inj hline))
      exact hu
    · intro hv
      have hle : u.rank ≤ v.rank := Nat.not_lt.mp fun hlt => hearlier v hlt hv
      have hge : v.rank ≤ u.rank := Nat.not_lt.mp fun hlt => hfirst u hlt hu
      rw [Refusal.rank_injective (Nat.le_antisymm hle hge)]
      rfl
  | @answer reply t hnone hreply =>
    refine ⟨fun hline => ?_, fun hv => absurd hv (hnone v)⟩
    obtain rfl : reply = .error _ := Except.ok.inj hline
    cases hreply
  | untold hnone _ =>
    refine ⟨fun hline => ?_, fun hv => absurd hv (hnone v)⟩
    cases hline

theorem Ruled.answered {r : Request} {x : Outcome} (h : Ruled now s r x)
    (hnone : ∀ v : Refusal, ¬v.Applies now s r) :
    (∃ reply, told x.1 = .ok reply ∧ reply.isError = false) ∨ r.Untold now s := by
  cases h with
  | refuse hv _ => exact absurd hv (hnone _)
  | answer _ hreply => exact .inl ⟨_, rfl, hreply⟩
  | untold _ huntold => exact .inr huntold

end Dispatch

theorem Moment.Sound.not_untold {m : Moment} (hm : m.Sound) (r : Request) : ¬r.Untold m.now m.keyspace := by
  rintro ⟨-, key, e, d, -, hlive, hd, hfinite⟩
  have htell : e.Tellable m.now := hm.tellable.live? hlive
  have hexpired : (!e.isExpired m.now) = true := (Option.filter_eq_some_iff.mp hlive).2
  rcases htell d hd m.now (Binary64.le_refl hm.now_ne_nan) with hle | ⟨n, hn⟩
  · rw [Entry.isExpired, hd] at hexpired
    simp [hle] at hexpired
  · obtain ⟨negative, k, hsub⟩ := exists_finite_of_remaining hn
    exact hfinite negative k hsub

/-- A request is answered with the error of the first reason to refuse it, and with no error where there is no reason.
Only what is left of a lifetime may be untold, and it never is after a course of events with a clock that shows times
and goes forward. -/
theorem refusals_exact (now : Instant) (s : Keyspace) {r : Request}
    (hshort : ∀ data ∈ r.numerals, ∀ k, ¬Overlong k data) :
    (∀ v : Refusal, (∀ w : Refusal, w.rank < v.rank → ¬w.Applies now s r) →
        ((dispatch now s r).1 = .ok (.error (v.error r.name).line) ↔ v.Applies now s r)) ∧
      ((∀ v : Refusal, ¬v.Applies now s r) →
        (∃ reply, (dispatch now s r).1 = .ok reply ∧ reply.isError = false) ∨ r.Untold now s) ∧
      ∀ (start : Instant) (es : List Moment.Event), start ≠ .nan → Moment.Forward start es →
        (Moment.mk start []).after es = ⟨now, s⟩ → ¬r.Untold now s := by
  have hruled : Dispatch.Ruled now s r (perform now s r) := perform_ruled hshort
  rw [dispatch_eq]
  refine ⟨fun v hfirst => hruled.told_iff hfirst, hruled.answered, ?_⟩
  intro start es hstart hes hm
  have hsound : ((Moment.mk start []).after es).Sound := Moment.sound_kept.after (Moment.sound_empty hstart) hes
  rw [hm] at hsound
  exact hsound.not_untold r

def lastOfString : Request := ⟨.ofString "LRANGE", [[107], [45, 49], [45, 49]]⟩

theorem refusals_exact_lastOfString :
    (dispatch .zero [(keyOf [107], ⟨.string [], none⟩)] lastOfString).1 = .ok (.error ReplyError.wrongType.line) := by
  have hr : lastOfString.command? = some .lrange := Command.ofText?_name .lrange
  have hread : read [45, 49] = .ok (-1) := by decide
  have hspells : Argument.Spells [45, 49] (-1) :=
    ⟨⟨true, [1], List.cons_ne_nil _ _, by decide⟩, by decide, by decide, by decide, by decide⟩
  have hnumerals : ∀ data ∈ Command.lrange.numerals lastOfString.args, data = [45, 49] := by decide
  have hnumbered : Numbered .lrange lastOfString.args :=
    numbered_of_ne_setex (by decide) fun data hdata => ⟨-1, hnumerals data hdata ▸ hspells⟩
  have hshort : ∀ data ∈ lastOfString.numerals, ∀ k, ¬Overlong k data := by
    intro data hdata k h
    rw [numerals_eq hr] at hdata
    rw [hnumerals data hdata, ← read_eq_tooLong_iff, hread] at h
    cases h
  refine ((refusals_exact .zero _ hshort).1 .wrongType fun w hw hearlier => ?_).mpr ?_
  · obtain rfl := eq_wrongType_of_applies hr rfl hnumbered hearlier
    exact Nat.lt_irrefl _ hw
  · exact ⟨.lrange, .list, [107], hr, rfl, rfl, ⟨.string [], none⟩, by decide +kernel, by decide⟩

end RespStore
