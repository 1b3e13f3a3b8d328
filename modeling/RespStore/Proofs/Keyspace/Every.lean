import RespStore.Command.Argument
import RespStore.Proofs.Keyspace.Lookup
import RespStore.Proofs.Keyspace.Operation

/-! What is true of every entry stays true of every entry, if it is true of what the operations store. -/

namespace RespStore.Keyspace

def Every (P : Entry → Prop) (s : Keyspace) : Prop := ∀ p ∈ s, P p.2

variable {α : Type} {P Q : Entry → Prop} {now : Instant} {k : Text} {s t : Keyspace} {e : Entry}

theorem every_nil : Every P [] := by
  intro p hp
  cases hp

theorem Every.imp (h : ∀ e, P e → Q e) (hs : s.Every P) : s.Every Q := fun p hp => h p.2 (hs p hp)

theorem Every.sublist (hs : s.Every P) (h : t.Sublist s) : t.Every P := fun p hp => hs p (h.subset hp)

theorem Every.live? (hs : s.Every P) (h : s.live? now k = some e) : P e := by
  obtain ⟨hk, -⟩ := Option.filter_eq_some_iff.mp h
  exact hs _ (Bindings.mem_of_find? hk)

theorem Every.put (hs : s.Every P) (he : P e) : Every P (s.put k e) := by
  induction s with
  | nil =>
    intro p hp
    obtain rfl := List.mem_singleton.mp hp
    exact he
  | cons q s ih =>
    have hrest : Every P (Bindings.put k e s) := ih fun p hp => hs p (List.mem_cons_of_mem q hp)
    intro p hp
    rw [Bindings.put] at hp
    split at hp
    · rcases List.mem_cons.mp hp with rfl | hp
      · exact he
      · exact hs p (List.mem_cons_of_mem q hp)
    · rcases List.mem_cons.mp hp with rfl | hp
      · exact hs _ List.mem_cons_self
      · exact hrest p hp

theorem Every.erase (hs : s.Every P) : Every P (s.erase k) := hs.sublist List.filter_sublist

theorem Every.settle (hs : s.Every P) : (s.settle now k).Every P := by
  unfold Keyspace.settle
  split
  · exact hs.erase
  · exact hs

theorem Every.change {c : Change} (hs : s.Every P) (hc : ∀ e, c = .store e → P e) :
    (s.change k c).Every P := by
  cases c with
  | keep => exact hs
  | store e => exact hs.put (hc e rfl)
  | drop => exact hs.erase

theorem Every.visit {f : Option Entry → α × Change} (hs : s.Every P)
    (hn : ∀ e, (f none).2 = .store e → P e)
    (hf : ∀ x e, P x → (f (some x)).2 = .store e → P e) : (s.visit now k f).2.Every P := by
  refine hs.settle.change fun e he => ?_
  cases hx : s.live? now k with
  | none =>
    rw [hx] at he
    exact hn e he
  | some x =>
    rw [hx] at he
    exact hf x e (hs.live? hx) he

theorem Every.visit_keep {f : Option Entry → α × Change} (hs : s.Every P) (hf : ∀ x, (f x).2 = .keep) :
    (s.visit now k f).2.Every P := by
  refine hs.visit (fun e he => ?_) fun x e _ he => ?_
  · rw [hf] at he
    cases he
  · rw [hf] at he
    cases he

theorem Every.typeOf (hs : s.Every P) : (s.typeOf now k).2.Every P := hs.visit_keep fun _ => rfl

theorem Every.readFields (hs : s.Every P) (f : Fields → α) : (s.readFields now k f).2.Every P :=
  hs.visit_keep fun _ => rfl

theorem Every.readItems (hs : s.Every P) (f : List Bytes → α) : (s.readItems now k f).2.Every P :=
  hs.visit_keep fun _ => rfl

theorem Every.visitEach {f : Option Entry → Nat × Change} (hs : s.Every P)
    (hf : ∀ x e, (f x).2 ≠ .store e) (ks : List Text) : (s.visitEach now f ks).2.Every P := by
  induction ks generalizing s with
  | nil => exact hs
  | cons k ks ih =>
    rw [visitEach_cons]
    refine ih (hs.visit (fun e he => ?_) fun x e _ he => ?_)
    · exact absurd he (hf none e)
    · exact absurd he (hf (some x) e)

structure Upheld (now : Instant) (P : Entry → Prop) : Prop where
  string (data : Bytes) : P ⟨.string data, none⟩
  lasting {v : Value} {old : Option Instant} {seconds : Int} {d : Instant} : P ⟨v, old⟩ → 0 ≤ seconds →
    seconds ≤ Argument.greatest → deadlineAfter now seconds = .ok d → P ⟨v, some d⟩
  persistent {v : Value} {old : Option Instant} : P ⟨v, old⟩ → P ⟨v, none⟩
  fields {fs : Fields} {d : Option Instant} (kvs : List (Text × Bytes)) : P ⟨.hash fs, d⟩ →
    P ⟨.hash (fs.putAll kvs), d⟩
  newFields {kvs : List (Text × Bytes)} : kvs ≠ [] → P ⟨.hash (Bindings.putAll kvs []), none⟩
  fieldsLeft {fs : Fields} {d : Option Instant} (names : List Text) : P ⟨.hash fs, d⟩ →
    (eraseFields names fs).2 ≠ [] → P ⟨.hash (eraseFields names fs).2, d⟩
  items {old new : List Bytes} {d : Option Instant} : P ⟨.list old, d⟩ → new ≠ [] → P ⟨.list new, d⟩
  newItems {new : List Bytes} : new ≠ [] → P ⟨.list new, none⟩

theorem storeItems_eq_store {d : Option Instant} {new : List Bytes}
    (h : (storeItems d new).2 = .store e) : new ≠ [] ∧ e = ⟨.list new, d⟩ := by
  cases new with
  | nil => cases h
  | cons x xs =>
    obtain rfl := Change.store.inj h
    exact ⟨List.cons_ne_nil x xs, rfl⟩

theorem Every.expire (hP : Upheld now P) (hs : s.Every P) {seconds : Int}
    (hn : seconds ≤ Argument.greatest) : (s.expire now k seconds).2.Every P := by
  refine hs.visit (fun e he => by cases he) fun x e hx he => ?_
  dsimp only at he
  split at he
  · cases he
  · rename_i hpos
    cases hd : deadlineAfter now seconds with
    | ok d =>
      rw [hd] at he
      obtain rfl := Change.store.inj he
      exact hP.lasting hx (by omega) hn hd
    | error f =>
      rw [hd] at he
      cases he

theorem Every.setWithLifetime (hP : Upheld now P) (hs : s.Every P) (data : Bytes) {seconds : Int}
    (h0 : 0 ≤ seconds) (hn : seconds ≤ Argument.greatest) :
    (s.setWithLifetime now k data seconds).2.Every P := by
  unfold Keyspace.setWithLifetime
  rw [if_neg (by omega)]
  cases hd : deadlineAfter now seconds with
  | ok d => exact hs.put (hP.lasting (hP.string data) h0 hn hd)
  | error f => exact hs

theorem Every.persist (hP : Upheld now P) (hs : s.Every P) : (s.persist now k).2.Every P := by
  refine hs.visit (fun e he => by cases he) fun x e hx he => ?_
  obtain ⟨v, _ | d⟩ := x
  · cases he
  · obtain rfl := Change.store.inj he
    exact hP.persistent hx

theorem Every.putFields (hP : Upheld now P) (hs : s.Every P) {kvs : List (Text × Bytes)}
    (hk : kvs ≠ []) : (s.putFields now k kvs).2.Every P := by
  refine hs.visit (fun e he => ?_) fun x e hx he => ?_
  · obtain rfl := Change.store.inj he
    exact hP.newFields hk
  · obtain ⟨v, d⟩ := x
    cases v with
    | hash fs =>
      obtain rfl := Change.store.inj he
      exact hP.fields kvs hx
    | string _ => cases he
    | list _ => cases he

theorem Every.deleteFields (hP : Upheld now P) (hs : s.Every P) (names : List Text) :
    (s.deleteFields now k names).2.Every P := by
  refine hs.visit (fun e he => by cases he) fun x e hx he => ?_
  obtain ⟨v, d⟩ := x
  cases v with
  | hash fs =>
    dsimp only at he
    split at he
    · cases he
    · rename_i n rest hne heq
      obtain rfl := Change.store.inj he
      have hrest : (eraseFields names fs).2 = rest := congrArg Prod.snd heq
      have hleft : (eraseFields names fs).2 ≠ [] := fun h => hne (hrest.symm.trans h)
      exact hrest ▸ hP.fieldsLeft names hx hleft
  | string _ => cases he
  | list _ => cases he

theorem Every.changeItems (hP : Upheld now P) (hs : s.Every P) (f : List Bytes → List Bytes) :
    (s.changeItems now k f).2.Every P := by
  refine hs.visit (fun e he => ?_) fun x e hx he => ?_
  · obtain ⟨hne, rfl⟩ := storeItems_eq_store he
    exact hP.newItems hne
  · obtain ⟨v, d⟩ := x
    cases v with
    | list old =>
      obtain ⟨hne, rfl⟩ := storeItems_eq_store he
      exact hP.items hx hne
    | string _ => cases he
    | hash _ => cases he

namespace Operation

def Admissible : Operation α → Prop
  | setWithLifetime _ _ n => 0 ≤ n ∧ n ≤ Argument.greatest
  | expire _ n => n ≤ Argument.greatest
  | putFields _ kvs => kvs ≠ []
  | _ => True

theorem every_call (hP : Upheld now P) {o : Operation α} (ho : o.Admissible) (hs : s.Every P) :
    (o.call now s).2.Every P := by
  cases o with
  | delete ks => exact hs.visitEach (fun x e he => by cases x <;> cases he) ks
  | countExisting ks => exact hs.visitEach (fun x e he => by cases x <;> cases he) ks
  | flush => exact every_nil
  | sweep => exact hs.sublist List.filter_sublist
  | keysMatching | size | stats => exact hs
  | typeOf k => exact hs.typeOf
  | set k data => exact hs.put (hP.string data)
  | setWithLifetime k data n => exact hs.setWithLifetime hP data ho.1 ho.2
  | expire k n => exact hs.expire hP ho
  | persist k => exact hs.persist hP
  | timeToLive k => exact hs.visit_keep (by rintro (_ | ⟨v, _ | d⟩) <;> rfl)
  | get k => exact hs.visit_keep (by rintro (_ | ⟨_ | _ | _, d⟩) <;> rfl)
  | putField k field data => exact hs.putFields hP (List.cons_ne_nil _ _)
  | putFields k kvs => exact hs.putFields hP ho
  | deleteFields k names => exact hs.deleteFields hP names
  | pushFront k data => exact hs.changeItems hP _
  | pushBack k data => exact hs.changeItems hP _
  | fieldValue | fieldValues | hasField | fields => exact hs.readFields _
  | listLength | listRange => exact hs.readItems _

end Operation

end RespStore.Keyspace
