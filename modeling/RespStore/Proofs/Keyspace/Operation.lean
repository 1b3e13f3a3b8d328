import RespStore.Keyspace.Hashes
import RespStore.Keyspace.Keys
import RespStore.Keyspace.Lists
import RespStore.Keyspace.Strings
import RespStore.Proofs.Keyspace.Live

/-! Operations that fail change nothing. A visit fails only over a live entry, so not even an expired entry of
the key has been taken away by then, and what it found it keeps. Three operations do arithmetic with the clock;
the others fail for nothing but a value of the wrong kind. -/

namespace RespStore.Keyspace

def Intact {α : Type} (s : Keyspace) (x : Except Failure α × Keyspace) : Prop :=
  ∀ e, x.1 = .error e → x.2 = s

def Guarded {α : Type} (s : Keyspace) (x : Except Failure α × Keyspace) : Prop :=
  ∀ e, x.1 = .error e → e = .refused .wrongType ∧ x.2 = s

variable {α : Type} {now : Instant} {k : Text} {s t : Keyspace}

theorem Guarded.intact {x : Except Failure α × Keyspace} (h : s.Guarded x) : s.Intact x :=
  fun e he => (h e he).2

theorem intact_ok (a : α) : s.Intact (.ok a, t) := by
  intro e h
  cases h

theorem intact_error (e : Failure) : s.Intact ((.error e : Except Failure α), s) := fun _ _ => rfl

theorem guarded_ok (a : α) : s.Guarded (.ok a, t) := by
  intro e h
  cases h

section Visit

variable {f : Option Entry → Except Failure α × Change} {e : Failure} {x : Entry}

theorem exists_live_of_error (hn : ∃ a, (f none).1 = .ok a) (h : (s.visit now k f).1 = .error e) :
    ∃ x, s.live? now k = some x ∧ (f (some x)).1 = .error e := by
  cases hx : s.live? now k with
  | none =>
    obtain ⟨a, ha⟩ := hn
    rw [visit, hx, ha] at h
    cases h
  | some x =>
    rw [visit, hx] at h
    exact ⟨x, rfl, h⟩

theorem visit_of_kept (hx : s.live? now k = some x) (hk : (f (some x)).2 = .keep) :
    (s.visit now k f).2 = s := by
  rw [visit, hx, hk, settle_of_live? hx]
  rfl

theorem intact_visit (hn : ∃ a, (f none).1 = .ok a)
    (hf : ∀ x e, (f (some x)).1 = .error e → (f (some x)).2 = .keep) : s.Intact (s.visit now k f) := by
  intro e h
  obtain ⟨x, hx, he⟩ := exists_live_of_error hn h
  exact visit_of_kept hx (hf x e he)

theorem guarded_visit (hn : ∃ a, (f none).1 = .ok a)
    (hf : ∀ x e, (f (some x)).1 = .error e → e = .refused .wrongType ∧ (f (some x)).2 = .keep) :
    s.Guarded (s.visit now k f) := by
  intro e h
  obtain ⟨x, hx, he⟩ := exists_live_of_error hn h
  obtain ⟨rfl, hk⟩ := hf x e he
  exact ⟨rfl, visit_of_kept hx hk⟩

end Visit

theorem intact_expire (seconds : Int) : s.Intact (s.expire now k seconds) := by
  refine intact_visit ⟨false, rfl⟩ ?_
  intro x e h
  dsimp only at h ⊢
  split at h
  · cases h
  · rename_i hs
    rw [if_neg hs]
    cases hd : deadlineAfter now seconds with
    | ok d => rw [hd] at h; cases h
    | error f => rfl

theorem intact_timeToLive : s.Intact (s.timeToLive now k) := by
  refine intact_visit ⟨-2, rfl⟩ ?_
  rintro ⟨v, d⟩ e h
  cases d <;> rfl

theorem intact_setWithLifetime (data : Bytes) (seconds : Int) :
    s.Intact (s.setWithLifetime now k data seconds) := by
  unfold setWithLifetime
  split
  · exact intact_error _
  · cases deadlineAfter now seconds with
    | ok d => exact intact_ok ()
    | error f => exact intact_error f

theorem guarded_get : s.Guarded (s.get now k) := by
  refine guarded_visit ⟨none, rfl⟩ ?_
  rintro ⟨v, d⟩ e h
  cases v with
  | string data => cases h
  | hash _ | list _ =>
    obtain rfl := Except.error.inj h
    exact ⟨rfl, rfl⟩

theorem guarded_readFields (f : Fields → α) : s.Guarded (s.readFields now k f) := by
  refine guarded_visit ⟨f [], rfl⟩ ?_
  rintro ⟨v, d⟩ e h
  cases v with
  | hash fs => cases h
  | string _ | list _ =>
    obtain rfl := Except.error.inj h
    exact ⟨rfl, rfl⟩

theorem guarded_readItems (f : List Bytes → α) : s.Guarded (s.readItems now k f) := by
  refine guarded_visit ⟨f [], rfl⟩ ?_
  rintro ⟨v, d⟩ e h
  cases v with
  | list items => cases h
  | string _ | hash _ =>
    obtain rfl := Except.error.inj h
    exact ⟨rfl, rfl⟩

theorem guarded_putFields (kvs : List (Text × Bytes)) : s.Guarded (s.putFields now k kvs) := by
  refine guarded_visit ⟨(), rfl⟩ ?_
  rintro ⟨v, d⟩ e h
  cases v with
  | hash fs => cases h
  | string _ | list _ =>
    obtain rfl := Except.error.inj h
    exact ⟨rfl, rfl⟩

theorem guarded_deleteFields (fields : List Text) : s.Guarded (s.deleteFields now k fields) := by
  refine guarded_visit ⟨0, rfl⟩ ?_
  rintro ⟨v, d⟩ e h
  cases v with
  | hash fs =>
    dsimp only at h
    split at h <;> cases h
  | string _ | list _ =>
    obtain rfl := Except.error.inj h
    exact ⟨rfl, rfl⟩

theorem storeItems_fst (deadline : Option Instant) (items : List Bytes) :
    (storeItems deadline items).1 = .ok items.length := by cases items <;> rfl

theorem guarded_changeItems (f : List Bytes → List Bytes) : s.Guarded (s.changeItems now k f) := by
  refine guarded_visit ⟨_, storeItems_fst none (f [])⟩ ?_
  rintro ⟨v, d⟩ e h
  cases v with
  | list items =>
    have hok : (storeItems d (f items)).1 = .ok (f items).length := storeItems_fst d (f items)
    cases hok.symm.trans h
  | string _ | hash _ =>
    obtain rfl := Except.error.inj h
    exact ⟨rfl, rfl⟩

/-- All that a keyspace can be asked for, by what it answers. The keys and the values of a hash are read off its
fields. -/
inductive Operation : Type → Type
  | delete (ks : List Text) : Operation Nat
  | countExisting (ks : List Text) : Operation Nat
  | keysMatching (pattern : Text) : Operation (List Text)
  | typeOf (k : Text) : Operation (Option Kind)
  | flush : Operation Unit
  | expire (k : Text) (seconds : Int) : Operation Bool
  | persist (k : Text) : Operation Bool
  | timeToLive (k : Text) : Operation Int
  | sweep : Operation Nat
  | set (k : Text) (data : Bytes) : Operation Unit
  | setWithLifetime (k : Text) (data : Bytes) (seconds : Int) : Operation Unit
  | get (k : Text) : Operation (Option Bytes)
  | putField (k field : Text) (data : Bytes) : Operation Unit
  | putFields (k : Text) (kvs : List (Text × Bytes)) : Operation Unit
  | fieldValue (k field : Text) : Operation (Option Bytes)
  | fieldValues (k : Text) (fields : List Text) : Operation (List (Option Bytes))
  | deleteFields (k : Text) (fields : List Text) : Operation Nat
  | hasField (k field : Text) : Operation Bool
  | fields (k : Text) : Operation Fields
  | pushFront (k : Text) (data : List Bytes) : Operation Nat
  | pushBack (k : Text) (data : List Bytes) : Operation Nat
  | listLength (k : Text) : Operation Nat
  | listRange (k : Text) (start stop : Int) : Operation (List Bytes)
  | size : Operation Nat
  | stats : Operation Stats

namespace Operation

def call (now : Instant) : Operation α → Keyspace → Except Failure α × Keyspace
  | delete ks, s => sure (s.delete now ks)
  | countExisting ks, s => sure (s.countExisting now ks)
  | keysMatching p, s => (.ok (s.keysMatching now p), s)
  | typeOf k, s => sure (s.typeOf now k)
  | flush, s => (.ok (), s.flush)
  | expire k n, s => s.expire now k n
  | persist k, s => sure (s.persist now k)
  | timeToLive k, s => s.timeToLive now k
  | sweep, s => sure (s.sweep now)
  | set k data, s => (.ok (), s.set k data)
  | setWithLifetime k data n, s => s.setWithLifetime now k data n
  | get k, s => s.get now k
  | putField k field data, s => s.putField now k field data
  | putFields k kvs, s => s.putFields now k kvs
  | fieldValue k field, s => s.fieldValue now k field
  | fieldValues k fs, s => s.fieldValues now k fs
  | deleteFields k fs, s => s.deleteFields now k fs
  | hasField k field, s => s.hasField now k field
  | fields k, s => s.fields now k
  | pushFront k data, s => s.pushFront now k data
  | pushBack k data, s => s.pushBack now k data
  | listLength k, s => s.listLength now k
  | listRange k i j, s => s.listRange now k i j
  | size, s => (.ok (s.size now), s)
  | stats, s => (.ok (s.stats now), s)
where
  sure {γ : Type} (r : γ × Keyspace) : Except Failure γ × Keyspace := (.ok r.1, r.2)

def isTimed : Operation α → Bool
  | expire _ _ | timeToLive _ | setWithLifetime _ _ _ => true
  | _ => false

theorem guarded_call {o : Operation α} (ho : o.isTimed = false) (s : Keyspace) :
    s.Guarded (o.call now s) := by
  cases o with
  | delete | countExisting | keysMatching | typeOf | flush | persist | sweep | set | size | stats =>
    exact guarded_ok _
  | get k => exact guarded_get
  | putField k field data => exact guarded_putFields _
  | putFields k kvs => exact guarded_putFields kvs
  | fieldValue k field => exact guarded_readFields _
  | fieldValues k fs => exact guarded_readFields _
  | hasField k field => exact guarded_readFields _
  | fields k => exact guarded_readFields id
  | deleteFields k fs => exact guarded_deleteFields fs
  | pushFront k data => exact guarded_changeItems _
  | pushBack k data => exact guarded_changeItems _
  | listLength k => exact guarded_readItems _
  | listRange k i j => exact guarded_readItems _
  | expire | timeToLive | setWithLifetime => cases ho

theorem intact_call (o : Operation α) (s : Keyspace) : s.Intact (o.call now s) := by
  cases ho : o.isTimed with
  | false => exact (guarded_call ho s).intact
  | true =>
    cases o with
    | expire k n => exact intact_expire n
    | timeToLive k => exact intact_timeToLive
    | setWithLifetime k data n => exact intact_setWithLifetime data n
    | _ => cases ho

end Operation

end RespStore.Keyspace
