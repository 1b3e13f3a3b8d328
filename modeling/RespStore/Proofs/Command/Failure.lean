import RespStore.Proofs.Command.Course

/-! Requests that fail change nothing. A command refuses before it writes, and only what has failed is
answered with an error. -/

namespace RespStore

open Keyspace

namespace Dispatch

/-- An outcome that has changed nothing if it failed, and holds no error if it did not. -/
structure Clean (s : Keyspace) (x : Outcome) : Prop where
  intact : s.Intact x
  isError : ∀ reply, x.1 = .ok reply → reply.isError = false

variable {α : Type} {now : Instant} {s t : Keyspace} {x : Outcome}

theorem clean_ok {reply : Reply} (hr : reply.isError = false) : Clean s (.ok reply, t) where
  intact := intact_ok reply
  isError q hq := by
    obtain rfl := Except.ok.inj hq
    exact hr

theorem clean_error (e : Failure) : Clean s (.error e, s) where
  intact := intact_error e
  isError q hq := by cases hq

theorem clean_trying {f : α → Reply} (hf : ∀ a, (f a).isError = false)
    {y : Except Failure α × Keyspace} (hy : s.Intact y) : Clean s (trying f y) := by
  obtain ⟨r, t⟩ := y
  cases r with
  | ok a => exact clean_ok (hf a)
  | error e =>
    obtain rfl : t = s := hy e rfl
    exact clean_error e

theorem Course.clean {numerals : List Bytes} (h : Course now s numerals x) : Clean s x := by
  cases h with
  | refuse e => exact clean_error _
  | tooLong => exact clean_error _
  | answer reply hr => exact clean_ok hr
  | operate o f _ hf => exact clean_trying hf (o.intact_call s)

end Dispatch

theorem execute_eq (now : Instant) (s : Keyspace) (r : Request) :
    execute now s r =
      (match told (Dispatch.perform now s r).1 with
        | .ok reply => reply
        | .error _ => internalError, (Dispatch.perform now s r).2) := by
  rw [execute, dispatch_eq]
  cases told (Dispatch.perform now s r).1 <;> rfl

theorem execute_of_isError {now : Instant} {s : Keyspace} {r : Request}
    (h : (execute now s r).1.isError = true) : (execute now s r).2 = s := by
  have hclean := (Dispatch.perform_course now s r).clean
  rw [execute_eq] at h ⊢
  cases hx : (Dispatch.perform now s r).1 with
  | ok reply =>
    have hr : reply.isError = false := hclean.isError reply hx
    rw [hx] at h
    exact absurd (hr.symm.trans h) Bool.false_ne_true
  | error e => exact hclean.intact e hx

/-- Whatever fails, a request or an operation of the keyspace itself, leaves the keyspace as it was, the
entries included that have expired and still stand there. -/
theorem failure_changes_nothing (now : Instant) (s : Keyspace) :
    (∀ r, (execute now s r).1.isError = true → (execute now s r).2 = s) ∧
      ∀ (α : Type) (o : Operation α) e, (o.call now s).1 = .error e → (o.call now s).2 = s :=
  ⟨fun _ => execute_of_isError, fun _ o => o.intact_call s⟩

def partlyExpired : Keyspace :=
  [(.ofString "l", ⟨.list [[1]], none⟩), (.ofString "s", ⟨.string [2], some .zero⟩)]

theorem failure_changes_nothing_partlyExpired :
    (execute .zero partlyExpired ⟨.ofString "HSET", [[108], [102], [118]]⟩).2 = partlyExpired ∧
      ((Operation.expire (.ofString "l") (2 ^ 1024)).call .zero partlyExpired).2 = partlyExpired :=
  ⟨(failure_changes_nothing .zero partlyExpired).1 _ (by decide +kernel),
    (failure_changes_nothing .zero partlyExpired).2 Bool (.expire (.ofString "l") (2 ^ 1024))
      (.fault .lifetimeTooLarge) (by decide +kernel)⟩

end RespStore
