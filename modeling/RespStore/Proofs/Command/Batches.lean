import RespStore.Proofs.Command.Representation
import RespStore.Proofs.Keyspace.Batches

/-! Commands for several things. What such a command does is what comes of the same command for each of the things, one
after another while the clock stands still, and its reply is made of theirs. -/

namespace RespStore

open Keyspace Dispatch

namespace Dispatch

def ofPairs (kvs : List (Bytes × Bytes)) : List Bytes := kvs.flatMap fun kv => [kv.1, kv.2]

theorem pairs_ofPairs (kvs : List (Bytes × Bytes)) : pairs (ofPairs kvs) = kvs.map fun kv => (.ofBytes kv.1, kv.2) := by
  induction kvs with
  | nil => rfl
  | cons kv kvs ih => exact congrArg (List.cons _) ih

theorem length_ofPairs (kvs : List (Bytes × Bytes)) : (ofPairs kvs).length = 2 * kvs.length := by
  induction kvs with
  | nil => rfl
  | cons kv kvs ih =>
    have hcons : (ofPairs (kv :: kvs)).length = (ofPairs kvs).length + 2 := rfl
    rw [hcons, ih, List.length_cons]
    omega

theorem perform_of_le (now : Instant) (s : Keyspace) {c : Command} (args : List Bytes) (hc : c.takesPairs = false)
    (hn : c.leastArguments ≤ args.length) : perform now s (.of c args) = run now s (.ofString c.name) c args :=
  perform_of now s (Command.admits_of_le hc hn)

end Dispatch

theorem Command.admits_ofPairs {c : Command} (hc : c = hset ∨ c = hmset) (key : Bytes) (kv : Bytes × Bytes)
    (kvs : List (Bytes × Bytes)) : c.admits (key :: ofPairs (kv :: kvs)).length = true := by
  have hlength : (key :: ofPairs (kv :: kvs)).length = 2 * kvs.length + 3 := by
    rw [List.length_cons, length_ofPairs, List.length_cons]
    omega
  rw [hlength]
  rcases hc with rfl | rfl <;> simp [admits, leastArguments, takesPairs]

namespace Moment

def answers (m : Moment) (rs : List Request) : List (Except Fault Reply) :=
  (m.replies (rs.map .request)).map (·.2)

/-- A request does what others do one after another, and its reply is made of theirs. -/
inductive DoneInParts (m : Moment) (batch : Request) (parts : List Request) (made : List Reply → Reply → Prop) : Prop
  | intro {qs : List Reply} {q : Reply} (hparts : m.answers parts = qs.map .ok)
    (hbatch : (dispatch m.now m.keyspace batch).1 = .ok q) (hq : q.isError = false) (hmade : made qs q)
    (hafter : m.after (parts.map .request) = m.step (.request batch)) : DoneInParts m batch parts made

/-- A value of another kind is in the way of a request and of each of the others, and nothing is changed. -/
structure RefusedInParts (m : Moment) (batch : Request) (parts : List Request) : Prop where
  answers_eq : m.answers parts = parts.map fun _ => .ok (.error ReplyError.wrongType.line)
  reply_eq : (dispatch m.now m.keyspace batch).1 = .ok (.error ReplyError.wrongType.line)
  after_eq : m.after (parts.map .request) = m
  unchanged : m.step (.request batch) = m

def Splits (m : Moment) (batch : Request) (parts : List Request) (made : List Reply → Reply → Prop) : Prop :=
  m.DoneInParts batch parts made ∨ m.RefusedInParts batch parts

def Summed (qs : List Reply) (q : Reply) : Prop := ∃ ns : List Nat, qs = ns.map count ∧ q = count ns.sum

def Last (qs : List Reply) (q : Reply) : Prop := qs.getLast? = some q

def Listed (qs : List Reply) (q : Reply) : Prop := q = .array qs

def Put (done : Reply) (qs : List Reply) (q : Reply) : Prop := (∀ p ∈ qs, p = .integer 1) ∧ q = done

section Parts

variable {m : Moment} {ι α β : Type} {one : ι → Operation α} {many : List ι → Operation β}
variable {single : α → β} {join : α → β → β} {part : ι → Request} {batch : Request} {p : α → Reply} {q : β → Reply}

theorem step_request {r : Request} {x : Outcome} (h : perform m.now m.keyspace r = x) :
    m.step (.request r) = ⟨m.now, x.2⟩ := by rw [step, dispatch_eq, h]

theorem answers_cons (r : Request) (rs : List Request) :
    m.answers (r :: rs) = (dispatch m.now m.keyspace r).1 :: (m.step (.request r)).answers rs := rfl

theorem answers_eq (hpart : ∀ i s, perform m.now s (part i) = trying p ((one i).call m.now s)) (is : List ι) :
    m.answers (is.map part) = (inTurn m.now one is m.keyspace).1.map fun x => told (x.map p) := by
  induction is generalizing m with
  | nil => rfl
  | cons i is ih =>
    have hstep : m.step (.request (part i)) = ⟨m.now, ((one i).call m.now m.keyspace).2⟩ :=
      step_request (hpart i m.keyspace)
    have hfirst : (dispatch m.now m.keyspace (part i)).1 = told (((one i).call m.now m.keyspace).1.map p) := by
      rw [dispatch_eq, hpart]
      rfl
    rw [List.map_cons, answers_cons, hfirst, hstep]
    exact congrArg (List.cons _) (ih hpart)

theorem after_eq (hpart : ∀ i s, perform m.now s (part i) = trying p ((one i).call m.now s)) (is : List ι) :
    m.after ((is.map part).map .request) = ⟨m.now, (inTurn m.now one is m.keyspace).2⟩ := by
  induction is generalizing m with
  | nil => rfl
  | cons i is ih =>
    have hstep : m.step (.request (part i)) = ⟨m.now, ((one i).call m.now m.keyspace).2⟩ :=
      step_request (hpart i m.keyspace)
    rw [List.map_cons, List.map_cons, after, List.foldl_cons, hstep]
    exact ih hpart

theorem splits_of_piecewise {made : List Reply → Reply → Prop} (h : Piecewise m.now one many single join) {i : ι}
    {is : List ι} (hpart : ∀ i s, perform m.now s (part i) = trying p ((one i).call m.now s))
    (hbatch : perform m.now m.keyspace batch = trying q ((many (i :: is)).call m.now m.keyspace))
    (hq : ∀ b, (q b).isError = false)
    (hmade : ∀ a as, made ((a :: as).map p) (q (joinAll single join a as))) :
    m.Splits batch ((i :: is).map part) made := by
  have hanswers := answers_eq hpart (i :: is)
  have hafter := after_eq hpart (i :: is)
  have hreply : (dispatch m.now m.keyspace batch).1 = told (((many (i :: is)).call m.now m.keyspace).1.map q) := by
    rw [dispatch_eq, hbatch]
    rfl
  have hstep : m.step (.request batch) = ⟨m.now, ((many (i :: is)).call m.now m.keyspace).2⟩ := step_request hbatch
  cases h.joined i is m.keyspace with
  | done a as heach hwhole =>
    rw [heach, List.map_map] at hanswers
    rw [heach] at hafter
    rw [hwhole] at hreply hstep
    have hparts : m.answers ((i :: is).map part) = ((a :: as).map p).map .ok := by
      rw [hanswers, List.map_map]
      rfl
    exact .inl (.intro hparts hreply (hq _) (hmade a as) (hafter.trans hstep.symm))
  | refused heach hwhole =>
    rw [heach, List.map_map] at hanswers
    rw [heach] at hafter
    rw [hwhole] at hreply hstep
    have hparts : m.answers ((i :: is).map part) =
        ((i :: is).map part).map fun _ => .ok (.error ReplyError.wrongType.line) := by
      rw [hanswers, List.map_map]
      rfl
    exact .inr ⟨hparts, hreply, hafter, hstep⟩

theorem Splits.done {parts : List Request} {made : List Reply → Reply → Prop} (h : m.Splits batch parts made) {n : Nat}
    (hcount : (dispatch m.now m.keyspace batch).1 = .ok (count n)) : m.DoneInParts batch parts made := by
  refine h.resolve_right fun hrefused => ?_
  cases hcount.symm.trans hrefused.reply_eq

theorem joinAll_add (n : Nat) (ns : List Nat) : joinAll id (· + ·) n ns = (n :: ns).sum := by
  induction ns generalizing n with
  | nil => rfl
  | cons k ns ih =>
    rw [joinAll, ih]
    exact List.sum_cons.symm

theorem joinAll_last (n : α) (ns : List α) : (n :: ns).getLast? = some (joinAll id (fun _ n => n) n ns) := by
  induction ns generalizing n with
  | nil => rfl
  | cons k ns ih => rw [joinAll, List.getLast?_cons_cons, ih]

theorem joinAll_cons (v : α) (vs : List α) : joinAll (fun v => [v]) (· :: ·) v vs = v :: vs := by
  induction vs generalizing v with
  | nil => rfl
  | cons w vs ih => rw [joinAll, ih]

theorem summed (n : Nat) (ns : List Nat) : Summed ((n :: ns).map count) (count (joinAll id (· + ·) n ns)) :=
  ⟨n :: ns, rfl, congrArg count (joinAll_add n ns)⟩

theorem last_map (f : α → Reply) (n : α) (ns : List α) :
    Last ((n :: ns).map f) (f (joinAll id (fun _ n => n) n ns)) := by
  rw [Last, List.getLast?_map, joinAll_last]
  rfl

theorem listed (f : α → Reply) (v : α) (vs : List α) :
    Listed ((v :: vs).map f) (.array ((joinAll (fun v => [v]) (· :: ·) v vs).map f)) := by
  rw [Listed, joinAll_cons]

end Parts

/-- Commands for several things, and the commands for one thing that they stand for. Pairs are put alike whether or not
they are first collected. -/
structure BatchesSplit (m : Moment) : Prop where
  del : ∀ key keys, m.DoneInParts (.of .del (key :: keys)) ((key :: keys).map fun key => .of .del [key]) Summed
  exist : ∀ key keys, m.DoneInParts (.of .exist (key :: keys)) ((key :: keys).map fun key => .of .exist [key]) Summed
  hdel : ∀ key f fs, m.Splits (.of .hdel (key :: f :: fs)) ((f :: fs).map fun f => .of .hdel [key, f]) Summed
  lpush : ∀ key v vs, m.Splits (.of .lpush (key :: v :: vs)) ((v :: vs).map fun v => .of .lpush [key, v]) Last
  rpush : ∀ key v vs, m.Splits (.of .rpush (key :: v :: vs)) ((v :: vs).map fun v => .of .rpush [key, v]) Last
  hset : ∀ key kv kvs, m.Splits (.of .hset (key :: ofPairs (kv :: kvs)))
    ((kv :: kvs).map fun kv => .of .hset [key, kv.1, kv.2]) (Put (.integer 1))
  hmset : ∀ key kv kvs, m.Splits (.of .hmset (key :: ofPairs (kv :: kvs)))
    ((kv :: kvs).map fun kv => .of .hset [key, kv.1, kv.2]) (Put .ok)
  hmget : ∀ key f fs, m.Splits (.of .hmget (key :: f :: fs)) ((f :: fs).map fun f => .of .hget [key, f]) Listed
  collected : ∀ k kvs, m.keyspace.putFields m.now k (Bindings.putAll kvs []) = m.keyspace.putFields m.now k kvs

theorem doneInParts_of_keys {m : Moment} {c : Command} {many : List Text → Operation Nat}
    (h : Piecewise m.now (fun k => many [k]) many id (· + ·)) (hpairs : c.takesPairs = false)
    (hleast : c.leastArguments = 1)
    (hrun : ∀ keys s, run m.now s (.ofString c.name) c keys = trying count ((many (keys.map keyOf)).call m.now s))
    (hok : ∀ ks s, ∃ n, ((many ks).call m.now s).1 = .ok n) (key : Bytes) (keys : List Bytes) :
    m.DoneInParts (.of c (key :: keys)) ((key :: keys).map fun key => .of c [key]) Summed := by
  have hperform : ∀ (key : Bytes) (keys : List Bytes) (s : Keyspace), perform m.now s (.of c (key :: keys)) =
      trying count ((many ((key :: keys).map keyOf)).call m.now s) := by
    intro key keys s
    have hadmits : c.leastArguments ≤ (key :: keys).length := by
      rw [hleast]
      exact Nat.le_add_left 1 keys.length
    rw [perform_of_le m.now s _ hpairs hadmits, hrun]
  have hsplits := splits_of_piecewise (h.comap keyOf) (fun key s => hperform key [] s)
    (hperform key keys m.keyspace) (fun _ => rfl) summed
  obtain ⟨n, hn⟩ := hok ((key :: keys).map keyOf) m.keyspace
  refine hsplits.done (n := n) ?_
  rw [dispatch_eq, hperform, trying, hn]
  rfl

theorem splits_put {c : Command} {done : Reply} (hc : c = .hset ∧ done = .integer 1 ∨ c = .hmset ∧ done = .ok)
    (m : Moment) (key : Bytes) (kv : Bytes × Bytes) (kvs : List (Bytes × Bytes)) :
    m.Splits (.of c (key :: ofPairs (kv :: kvs))) ((kv :: kvs).map fun kv => .of .hset [key, kv.1, kv.2])
      (Put done) := by
  have hpart : ∀ (kv : Bytes × Bytes) (s : Keyspace), perform m.now s (.of .hset [key, kv.1, kv.2]) =
      trying (fun _ => .integer 1) (s.putFields m.now (keyOf key) [(.ofBytes kv.1, kv.2)]) :=
    fun kv s => perform_of m.now s (Command.admits_ofPairs (.inl rfl) key kv [])
  have hbatch : perform m.now m.keyspace (.of c (key :: ofPairs (kv :: kvs))) =
      trying (fun _ => done) (m.keyspace.putFields m.now (keyOf key)
        ((kv :: kvs).map fun kv => (.ofBytes kv.1, kv.2))) := by
    rw [← pairs_ofPairs]
    rcases hc with ⟨rfl, rfl⟩ | ⟨rfl, rfl⟩
    · exact perform_of m.now m.keyspace (Command.admits_ofPairs (.inl rfl) key kv kvs)
    · exact perform_of m.now m.keyspace (Command.admits_ofPairs (.inr rfl) key kv kvs)
  have hdone : done.isError = false := by rcases hc with ⟨-, rfl⟩ | ⟨-, rfl⟩ <;> rfl
  refine splits_of_piecewise ((piecewise_putFields m.now (keyOf key)).comap fun kv => (.ofBytes kv.1, kv.2))
    hpart hbatch (fun _ => hdone) fun u us => ⟨fun q hq => ?_, rfl⟩
  obtain ⟨-, -, rfl⟩ := List.mem_map.mp hq
  rfl

/-- Whatever the keyspace holds, a command for several things does what the commands for one thing do. -/
theorem batches_split (m : Moment) : m.BatchesSplit where
  del := doneInParts_of_keys (piecewise_delete m.now) rfl rfl (fun _ _ => rfl) fun _ _ => ⟨_, rfl⟩
  exist := doneInParts_of_keys (piecewise_countExisting m.now) rfl rfl (fun _ _ => rfl) fun _ _ => ⟨_, rfl⟩
  hdel key _ _ := splits_of_piecewise ((piecewise_deleteFields m.now (keyOf key)).comap Text.ofBytes)
    (fun f s => perform_of_le m.now s [key, f] rfl (Nat.le_refl 2))
    (perform_of_le m.now m.keyspace _ rfl (Nat.le_add_left 2 _)) (fun _ => rfl) summed
  lpush key _ _ := splits_of_piecewise (piecewise_pushFront m.now (keyOf key))
    (fun v s => perform_of_le m.now s [key, v] rfl (Nat.le_refl 2))
    (perform_of_le m.now m.keyspace _ rfl (Nat.le_add_left 2 _)) (fun _ => rfl) (last_map count)
  rpush key _ _ := splits_of_piecewise (piecewise_pushBack m.now (keyOf key))
    (fun v s => perform_of_le m.now s [key, v] rfl (Nat.le_refl 2))
    (perform_of_le m.now m.keyspace _ rfl (Nat.le_add_left 2 _)) (fun _ => rfl) (last_map count)
  hset := splits_put (.inl ⟨rfl, rfl⟩) m
  hmset := splits_put (.inr ⟨rfl, rfl⟩) m
  hmget key _ _ := splits_of_piecewise ((piecewise_fieldValues m.now (keyOf key)).comap Text.ofBytes)
    (fun f s => perform_of_le m.now s [key, f] rfl (Nat.le_refl 2))
    (perform_of_le m.now m.keyspace _ rfl (Nat.le_add_left 2 _)) (fun _ => rfl) (listed .ofBytes?)
  collected k kvs := by simp only [putFields, Bindings.putAll_collected]

example :
    Moment.answers ⟨.zero, [(.ofString "h", ⟨.hash [(.ofString "f", [118])], none⟩)]⟩
      [.of .hdel [[104], [102]], .of .hdel [[104], [102]]] = [.ok (count 1), .ok (count 0)] := by
  cbv

end Moment

end RespStore
