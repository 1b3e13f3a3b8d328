import RespStore.Proofs.Command.Course
import RespStore.Proofs.Command.Timeline
import RespStore.Proofs.Keyspace.Tellable

/-! Requests that are answered. In the course of time no lifetime comes to last so long that what is left of it
could not be told, so the one thing that leaves a request without a reply is a numeral that is never read. -/

namespace RespStore

open Keyspace Numeral

namespace Dispatch

variable {now : Instant} {s : Keyspace} {numerals : List Bytes} {x : Outcome}

theorem Course.every {P : Entry → Prop} (hP : Upheld now P) (hs : s.Every P)
    (h : Course now s numerals x) : x.2.Every P := by
  cases h with
  | refuse e => exact hs
  | tooLong => exact hs
  | answer reply => exact hs
  | operate o f ho => exact o.every_call hP ho hs

theorem withInteger_of_overlong {n : Nat} {data : Bytes} (h : Overlong n data) (f : Int → Outcome) :
    withInteger data s f = (.error (.fault (.numeralTooLong n)), s) := by
  rw [withInteger, Argument.integer_of_overlong h]

theorem perform_of_overlong {r : Request} {c : Command} (hr : r.command? = some c)
    (hc : c.admits r.args.length = true) {n : Nat} {data : Bytes} (h : Overlong n data)
    (hn : (c.numerals r.args).head? = some data) :
    perform now s r = (.error (.fault (.numeralTooLong n)), s) := by
  obtain ⟨name, args⟩ := r
  have hname : Command.ofText? name = some c := hr
  rw [perform, hname]
  dsimp only at hc hn ⊢
  rw [if_pos hc]
  cases shape c args with
  | few lacking => cases lacking.symm.trans hc
  | setex key seconds =>
    obtain rfl : seconds = data := Option.some.inj hn
    exact withInteger_of_overlong h _
  | expire key seconds =>
    obtain rfl : seconds = data := Option.some.inj hn
    exact withInteger_of_overlong h _
  | lrange key start =>
    obtain rfl : start = data := Option.some.inj hn
    exact withInteger_of_overlong h _
  | _ => cases hn

end Dispatch

open Dispatch

/-- A reply, and an error only in the words of a refusal; or no reply, where an argument that should be a
number is a numeral too long, and nothing done. -/
def Replied (s : Keyspace) (r : Request) (x : Except Fault Reply × Keyspace) : Prop :=
  (∃ reply, x.1 = .ok reply ∧ (reply.isError = true → ∃ e : ReplyError, reply = .error e.line)) ∨
    ∃ n, ∃ data ∈ r.numerals, Overlong n data ∧ x = (.error (.numeralTooLong n), s)

namespace Moment

structure Sound (m : Moment) : Prop where
  now_ne_nan : m.now ≠ .nan
  tellable : m.keyspace.Every (Entry.Tellable m.now)

theorem sound_empty {now : Instant} (hnow : now ≠ .nan) : (Moment.mk now []).Sound := ⟨hnow, every_nil⟩

theorem sound_kept : Kept Sound where
  request {m} hm r := by
    have hcourse := perform_course m.now m.keyspace r
    refine ⟨hm.now_ne_nan, ?_⟩
    rw [step, dispatch_eq]
    exact hcourse.every (upheld_tellable hm.now_ne_nan) hm.tellable
  clock {m later} hm hl := by
    refine ⟨?_, hm.tellable.tellable_later hl⟩
    rintro rfl
    rw [Binary64.le_nan] at hl
    cases hl
  sweep hm := ⟨hm.now_ne_nan, hm.tellable.sublist List.filter_sublist⟩

theorem Sound.replied {m : Moment} (hm : m.Sound) (r : Request) :
    Replied m.keyspace r (dispatch m.now m.keyspace r) := by
  have hcourse := perform_course m.now m.keyspace r
  rw [dispatch_eq]
  generalize perform m.now m.keyspace r = x at hcourse
  cases hcourse with
  | refuse e => exact .inl ⟨.error e.line, rfl, fun _ => ⟨e, rfl⟩⟩
  | @tooLong n data h hr => exact .inr ⟨n, data, hr, h, rfl⟩
  | answer reply hreply =>
    exact .inl ⟨reply, rfl, fun h => absurd (hreply.symm.trans h) Bool.false_ne_true⟩
  | operate o f ho hf =>
    have hfaultless := o.faultless_call hm.tellable hm.now_ne_nan ho
    left
    rw [trying]
    cases hx : (o.call m.now m.keyspace).1 with
    | ok a => exact ⟨f a, rfl, fun h => absurd ((hf a).symm.trans h) Bool.false_ne_true⟩
    | error e =>
      cases e with
      | refused e => exact ⟨.error e.line, rfl, fun _ => ⟨e, rfl⟩⟩
      | fault g => exact absurd hx (hfaultless g)

/-- Every byte string is read as the number it spells, or refused, or a numeral too long; and whatever has come
before, every request is answered, save where an argument of it is such a numeral. -/
theorem requests_replied {now : Instant} (hnow : now ≠ .nan) {es : List Event} (hes : Forward now es)
    (r : Request) :
    (∀ w : Spelling, Argument.integer w.toBytes =
      if w.IsLong then .error (.fault (.numeralTooLong w.digits.length))
      else if Argument.least ≤ w.number ∧ w.number ≤ Argument.greatest then .ok w.number
      else .error (.refused .notAnInteger)) ∧
    (∀ data, (∀ w : Spelling, w.toBytes ≠ data) → Argument.integer data = .error (.refused .notAnInteger)) ∧
    let m := (Moment.mk now []).after es
    Replied m.keyspace r (dispatch m.now m.keyspace r) :=
  ⟨Argument.integer_toBytes, fun _ => Argument.integer_of_unwritten,
    (sound_kept.after (sound_empty hnow) hes).replied r⟩

def halfLifetime : List Event :=
  [.request ⟨.ofString "SETEX", [[107], [50], [118]]⟩, .clock (.ofUnits false Binary64.one)]

theorem requests_replied_halfLifetime :
    let m := (Moment.mk .zero []).after halfLifetime
    Replied m.keyspace ⟨.ofString "TTL", [[107]]⟩
      (dispatch m.now m.keyspace ⟨.ofString "TTL", [[107]]⟩) := by
  have hforward : Forward .zero halfLifetime := ⟨by decide +kernel, trivial⟩
  exact (requests_replied (by decide) hforward ⟨.ofString "TTL", [[107]]⟩).2.2

end Moment

def overlongExpire : Request := ⟨.ofString "EXPIRE", [[107], (Spelling.run 0 maxDigits).toBytes]⟩

theorem overlongExpire_unreplied :
    let w := Spelling.run 0 maxDigits
    Argument.least ≤ w.number ∧ w.number ≤ Argument.greatest ∧
      Argument.integer w.toBytes = .error (.fault (.numeralTooLong 4301)) ∧
      dispatch .zero [] overlongExpire = (.error (.numeralTooLong 4301), []) := by
  have hoverlong := overlong_run 0
  have hcommand : overlongExpire.command? = some .expire := Command.ofText?_name .expire
  have hperform : perform .zero [] overlongExpire = _ := perform_of_overlong hcommand rfl hoverlong rfl
  refine ⟨?_, ?_, Argument.integer_of_overlong hoverlong, ?_⟩
  · rw [Spelling.number_run_zero]
    decide
  · rw [Spelling.number_run_zero]
    decide
  · rw [dispatch_eq, hperform]
    rfl

end RespStore
