import RespStore.Proofs.Wire.LongNumeral
import RespStore.Proofs.Wire.Patience

/-! What becomes of a reply's bytes. They are read as that reply, or found at fault where they stand; they are never
read as anything else, nor joined with bytes that follow. -/

namespace RespStore.Wire

variable {limits : Limits} {Q : Bytes → Prop} {b rest : Bytes}

theorem taken_trans {c : Bytes} (h : ∃ taken, taken ≠ [] ∧ taken ++ c = b)
    (h' : ∃ taken, taken ≠ [] ∧ taken ++ rest = c) : ∃ taken, taken ≠ [] ∧ taken ++ rest = b := by
  obtain ⟨first, hfirst, rfl⟩ := h
  obtain ⟨second, -, rfl⟩ := h'
  exact ⟨first ++ second, List.append_ne_nil_of_left_ne_nil hfirst _, List.append_assoc _ _ _⟩

theorem taken_of_head {a : Head} (h : head limits b = .done a rest) : ∃ taken, taken ≠ [] ∧ taken ++ rest = b := by
  obtain ⟨taken, htaken⟩ := head_suffix h
  have hlt : rest.length < b.length := head_shortens limits h
  refine ⟨taken, ?_, htaken⟩
  rintro rfl
  rw [List.nil_append] at htaken
  exact absurd hlt (htaken ▸ Nat.lt_irrefl _)

theorem taken_of_replyWithin {r : Reply} {frames : List Frame} (h : replyWithin limits frames b = .done r rest) :
    ∃ taken, taken ≠ [] ∧ taken ++ rest = b := by
  fun_induction replyWithin limits frames b with
  | case1 => cases h
  | case2 => cases h
  | case3 frames b n rest' hhead ih =>
    exact taken_trans (taken_of_head hhead) (ih h)
  | case4 frames b r' rest' hhead =>
    obtain ⟨-, rfl⟩ := Progress.done.inj h
    exact taken_of_head hhead
  | case5 frames b r' rest' hhead fs hsettle ih =>
    exact taken_trans (taken_of_head hhead) (ih h)

theorem taken_of_reply {r : Reply} (h : reply limits b = .done r rest) : ∃ taken, taken ≠ [] ∧ taken ++ rest = b :=
  taken_of_replyWithin h

theorem numeral_of_not_readable {n : Int} (hn : ¬ Numeral.Readable n.natAbs) (bad : ProtocolFault) (rest : Bytes) :
    numeral bad (Numeral.ofInt n) rest = .fault (.numeralTooLong (Numeral.ofNat n.natAbs).length) := by
  rw [numeral, Numeral.read_of_not_readable hn]

theorem andThen_numeral_fault {α : Type} {f : Int → Reader α} {n : Int} {rest : Bytes} (bad : ProtocolFault)
    (hf : Numeral.Readable n.natAbs → ∃ e, f n rest = .fault e) :
    ∃ e, (numeral bad (Numeral.ofInt n)).andThen f rest = .fault e := by
  unfold Reader.andThen
  by_cases hn : Numeral.Readable n.natAbs
  · rw [numeral_ofInt bad hn]
    exact hf hn
  · rw [numeral_of_not_readable hn]
    exact ⟨_, rfl⟩

def Refuses (limits : Limits) (r : Reply) : Prop :=
  ∀ frames rest, ∃ e, replyWithin limits frames (r.toBytes ++ rest) = .fault e

theorem refuses_of_head {r : Reply} (h : ∀ rest, ∃ e, head limits (r.toBytes ++ rest) = .fault e) :
    Refuses limits r := by
  intro frames rest
  obtain ⟨e, he⟩ := h rest
  exact ⟨e, by rw [replyWithin_eq, he]⟩

theorem refuses_integer {n : Int} (hn : ¬ Numeral.Readable n.natAbs) : Refuses limits (.integer n) := by
  refine refuses_of_head fun rest => ?_
  rw [Reply.toBytes, head_lineOf limits integerMark (cr_not_mem_ofInt n)]
  exact andThen_numeral_fault .integer fun h => absurd h hn

theorem refuses_bulk {data : Bytes} (h : ¬ (data.length ≤ limits.bulk ∧ Numeral.Readable data.length)) :
    Refuses limits (.bulk data) := by
  refine refuses_of_head fun rest => ?_
  rw [Reply.toBytes, bulkOf, List.append_assoc, List.append_assoc,
    head_lineOf limits bulkMark (cr_not_mem_ofNat data.length)]
  refine andThen_numeral_fault (n := data.length) .bulkLength fun hn => ?_
  have hlength : ¬ (data.length : Int) ≤ limits.bulk := fun hl => h ⟨hl, hn⟩
  rw [bulkHead, if_neg (by omega), if_pos (.inr (by omega))]
  exact ⟨_, rfl⟩

theorem refuses_array {items : List Reply} (h : ¬ (items.length ≤ limits.array ∧ Numeral.Readable items.length)) :
    Refuses limits (.array items) := by
  refine refuses_of_head fun rest => ?_
  rw [Reply.toBytes, List.append_assoc, arrayHeader, head_lineOf limits starMark (cr_not_mem_ofNat items.length)]
  refine andThen_numeral_fault (n := items.length) .multibulkLength fun hn => ?_
  have hlength : ¬ (items.length : Int) ≤ limits.array := fun hl => h ⟨hl, hn⟩
  rw [arrayHead, if_neg (by omega), if_pos (.inr (by omega))]
  exact ⟨_, rfl⟩

theorem refuses_items {r : Reply} {rs : List Reply} (h : ∀ x ∈ r :: rs, x.Sendable limits ∨ Refuses limits x)
    (hsome : ∃ x ∈ r :: rs, ¬ x.Sendable limits) (done : List Reply) (frames : List Frame) (rest : Bytes) :
    ∃ e, replyWithin limits (⟨(r :: rs).length, done⟩ :: frames) (Reply.listToBytes (r :: rs) ++ rest) = .fault e := by
  induction rs generalizing r done with
  | nil =>
    obtain ⟨x, hx, hnot⟩ := hsome
    obtain rfl := List.mem_singleton.mp hx
    rw [Reply.listToBytes, Reply.listToBytes, List.append_nil]
    exact (h x hx).resolve_left hnot _ rest
  | cons r' rs ih =>
    rw [Reply.listToBytes, List.append_assoc]
    rcases h r List.mem_cons_self with hr | hr
    · rw [replyWithin_toBytes limits hr]
      show ∃ e, resume limits (settle r.received (⟨rs.length + 2, done⟩ :: frames)) _ = _
      rw [settle_of_lt]
      refine ih (fun x hx => h x (List.mem_cons_of_mem r hx)) ?_ (r.received :: done)
      obtain ⟨x, hx, hnot⟩ := hsome
      rcases List.mem_cons.mp hx with rfl | hx
      · exact absurd hr hnot
      · exact ⟨x, hx, hnot⟩
    · exact hr _ _

theorem sendable_or_refuses {r : Reply} (hr : r.Made Q) : r.Sendable limits ∨ Refuses limits r := by
  induction hr with
  | status ht => exact .inl (.status ht)
  | error ht => exact .inl (.error ht)
  | integer n =>
    by_cases hn : Numeral.Readable n.natAbs
    · exact .inl (.integer hn)
    · exact .inr (refuses_integer hn)
  | @bulk data hd =>
    by_cases h : data.length ≤ limits.bulk ∧ Numeral.Readable data.length
    · exact .inl (.bulk h.1 h.2)
    · exact .inr (refuses_bulk h)
  | null => exact .inl .null
  | @array items _ ih =>
    by_cases h : items.length ≤ limits.array ∧ Numeral.Readable items.length
    · by_cases hall : ∀ r ∈ items, r.Sendable limits
      · exact .inl (.array h.1 h.2 hall)
      · right
        have hsome : ∃ x ∈ items, ¬ x.Sendable limits := by simpa using hall
        cases items with
        | nil =>
          obtain ⟨x, hx, -⟩ := hsome
          cases hx
        | cons r rs =>
          intro frames rest
          rw [Reply.toBytes, List.append_assoc, replyWithin_eq, head_array limits h.1 h.2,
            if_neg (List.cons_ne_nil r rs)]
          exact refuses_items ih hsome [] frames rest
    · exact .inr (refuses_array h)

theorem eq_of_reply {r q : Reply} (hr : r.Made Q) {b x rest later : Bytes} (h : reply limits b = .done q rest)
    (hb : b ++ x = r.toBytes ++ later) : q = r.received ∧ rest ++ x = later := by
  have hmore : reply limits (b ++ x) = .done q (rest ++ x) := (reply_steady limits).done h x
  rw [hb] at hmore
  rcases sendable_or_refuses hr with hs | hrefuses
  · rw [reply_toBytes limits hs] at hmore
    obtain ⟨rfl, rfl⟩ := Progress.done.inj hmore
    exact ⟨rfl, rfl⟩
  · obtain ⟨e, he⟩ := hrefuses [] later
    have hfault : reply limits (r.toBytes ++ later) = .fault e := he
    rw [hfault] at hmore
    cases hmore

end RespStore.Wire
