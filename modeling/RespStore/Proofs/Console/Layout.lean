import RespStore.Proofs.Console.Block
import RespStore.Proofs.Number.Numeral
import RespStore.Proofs.Text.Lossless
import RespStore.Wire.Reader

/-! The lines of a reply. A leaf is one line, and an array is its items' lines one below the other, each item hanging
from its label; rendering writes just these lines, whatever column they begin in, unless a text inside breaks one. -/

namespace RespStore

open Render

/-- A scalar, a null or an empty array. -/
def Reply.IsLeaf (r : Reply) : Prop := ∀ x xs, r ≠ .array (x :: xs)

mutual

def Reply.leaves : Reply → List Reply
  | .array (r :: rs) => Reply.listLeaves (r :: rs)
  | r => [r]

def Reply.listLeaves : List Reply → List Reply
  | [] => []
  | r :: rs => r.leaves ++ Reply.listLeaves rs

end

mutual

def Reply.layout : Reply → List Text
  | .array (r :: rs) => Reply.listLayout (Text.ofNat (rs.length + 1)).length 1 (r :: rs)
  | r => [r.render 0]

def Reply.listLayout (width i : Nat) : List Reply → List Text
  | [] => []
  | r :: rs => hang (label width i) (width + 2) r.layout ++ Reply.listLayout width (i + 1) rs

end

inductive Reply.Unbroken : Reply → Prop
  | status {t : Text} (ht : newline ∉ t) : Unbroken (.status t)
  | error {t : Text} (ht : newline ∉ t) : Unbroken (.error t)
  | integer (n : Int) : Unbroken (.integer n)
  | bulk {data : Bytes} (hd : Wire.lf ∉ data) : Unbroken (.bulk data)
  | null : Unbroken .null
  | array {items : List Reply} (hi : ∀ r ∈ items, Unbroken r) : Unbroken (.array items)

namespace Reply

theorem leaves_array {items : List Reply} (h : items ≠ []) : (array items).leaves = listLeaves items := by
  cases items with
  | nil => exact absurd rfl h
  | cons r rs => rfl

theorem layout_array {items : List Reply} (h : items ≠ []) :
    (array items).layout = listLayout (Text.ofNat items.length).length 1 items := by
  cases items with
  | nil => exact absurd rfl h
  | cons r rs => rfl

theorem render_array {items : List Reply} (h : items ≠ []) (indent : Int) :
    (array items).render indent = renderItems indent (Text.ofNat items.length).length 1 items := by
  cases items with
  | nil => exact absurd rfl h
  | cons r rs => rfl

section Leaf

variable {r : Reply} (h : r.IsLeaf)
include h

theorem IsLeaf.leaves_eq : r.leaves = [r] := by
  unfold leaves
  split
  · exact absurd rfl (h _ _)
  · rfl

theorem IsLeaf.layout_eq : r.layout = [r.render 0] := by
  unfold layout
  split
  · exact absurd rfl (h _ _)
  · rfl

theorem IsLeaf.render_eq (indent : Int) : r.render indent = r.render 0 := by
  cases r with
  | array items =>
    cases items with
    | nil => rfl
    | cons x xs => exact absurd rfl (h x xs)
  | _ => rfl

end Leaf

@[elab_as_elim]
theorem leafInduction {motive : Reply → Prop} (leaf : ∀ r : Reply, r.IsLeaf → motive r)
    (array : ∀ items, items ≠ [] → (∀ r ∈ items, motive r) → motive (array items)) (r : Reply) : motive r :=
  match r with
  | .array (x :: xs) => array (x :: xs) (List.cons_ne_nil x xs) fun y _ => leafInduction leaf array y
  | .array [] => leaf _ (by simp [IsLeaf])
  | .status t => leaf _ (by simp [IsLeaf])
  | .error t => leaf _ (by simp [IsLeaf])
  | .integer n => leaf _ (by simp [IsLeaf])
  | .bulk data => leaf _ (by simp [IsLeaf])
  | .null => leaf _ (by simp [IsLeaf])

theorem layout_ne_nil (r : Reply) : r.layout ≠ [] := by
  induction r using leafInduction with
  | leaf r hr =>
    rw [hr.layout_eq]
    exact List.cons_ne_nil _ _
  | array items hne ih =>
    obtain ⟨x, xs, rfl⟩ := List.exists_cons_of_ne_nil hne
    rw [layout_array hne, listLayout]
    exact List.append_ne_nil_of_left_ne_nil (hang_ne_nil (ih x List.mem_cons_self)) _

end Reply

/-! What a reply is printed with breaks no line. -/

theorem Text.newline_not_mem_ofInt (n : Int) : newline ∉ Text.ofInt n := by
  intro h
  obtain ⟨b, hb, hglyph⟩ := List.mem_map.mp h
  have hchar : Char.ofNat b.toNat = '\n' := Glyph.char.inj hglyph
  have hbyte : b.toNat < 0x100 := b.toNat_lt
  have hn : b.toNat = 10 := by
    rw [← Utf8.toNat_ofNat (n := b.toNat) (by omega), hchar]
    rfl
  have hlf : b = Wire.lf := UInt8.toNat_inj.mp hn
  rw [hlf] at hb
  rcases Numeral.mem_ofInt hb with hb | hb
  · exact absurd hb (by decide)
  · exact absurd hb (by decide)

theorem Text.newline_not_mem_ofNat (n : Nat) : newline ∉ Text.ofNat n := newline_not_mem_ofInt n

theorem Utf8.newline_not_mem_hexByte (b : UInt8) : '\n' ∉ Utf8.hexByte b := by
  have hdigit : ∀ n < 16, Nat.digitChar n ≠ '\n' := by decide
  have hb : b.toNat < 0x100 := b.toNat_lt
  rw [Utf8.hexByte, List.mem_cons, List.mem_singleton, not_or]
  exact ⟨(hdigit _ (by omega)).symm, (hdigit _ (by omega)).symm⟩

theorem Text.newline_not_mem_ofBytesEscaping {bs : Bytes} (h : Wire.lf ∉ bs) :
    newline ∉ Text.ofBytesEscaping bs := by
  intro hmem
  obtain ⟨segment, hsegment, hmem⟩ := List.mem_flatMap.mp hmem
  cases segment with
  | char c =>
    obtain rfl : c = '\n' := (Glyph.char.inj (List.mem_singleton.mp hmem)).symm
    rw [← Utf8.source_segments bs] at h
    exact h (List.mem_flatMap.mpr ⟨_, hsegment, by decide⟩)
  | malformed part =>
    obtain ⟨c, hc, hglyph⟩ := List.mem_map.mp hmem
    obtain rfl : c = '\n' := Glyph.char.inj hglyph
    obtain ⟨b, -, hb⟩ := List.mem_flatMap.mp hc
    rw [List.mem_cons, List.mem_cons] at hb
    rcases hb with hb | hb | hb
    · exact absurd hb (by decide)
    · exact absurd hb (by decide)
    · exact Utf8.newline_not_mem_hexByte b hb

theorem Render.newline_not_mem_label (width i : Nat) : newline ∉ label width i := by
  have hbracket : newline ∉ Text.ofString ") " := by decide
  simp only [label, List.mem_append, not_or]
  exact ⟨⟨newline_not_mem_spaces _, Text.newline_not_mem_ofNat i⟩, hbracket⟩

namespace Reply

theorem Unbroken.newline_not_mem_render {r : Reply} (hr : r.Unbroken) (hl : r.IsLeaf) : newline ∉ r.render 0 := by
  cases hr with
  | status ht => exact ht
  | error ht =>
    have hmark : newline ∉ Text.ofString "(error) " := by decide
    rw [render, List.mem_append, not_or]
    exact ⟨hmark, ht⟩
  | integer n =>
    have hmark : newline ∉ Text.ofString "(integer) " := by decide
    rw [render, List.mem_append, not_or]
    exact ⟨hmark, Text.newline_not_mem_ofInt n⟩
  | bulk hd =>
    have hquote : newline ∉ Text.ofString "\"" := by decide
    rw [render, List.mem_append, List.mem_append, not_or, not_or]
    exact ⟨⟨hquote, Text.newline_not_mem_ofBytesEscaping hd⟩, hquote⟩
  | null => exact (by decide : newline ∉ Text.ofString "(nil)")
  | @array items hi =>
    cases items with
    | nil => exact (by decide : newline ∉ Text.ofString "(empty array)")
    | cons x xs => exact absurd rfl (hl x xs)

theorem rows_item {x : Reply} (hx : ∀ indent : Nat, rows (x.render indent) = hang [] indent x.layout) {p : Text}
    (hp : newline ∉ p) (indent width i : Nat) :
    rows (p ++ label width i ++ x.render (indent + width + 2)) =
      hang p indent (hang (label width i) (width + 2) x.layout) := by
  have hmargin : newline ∉ p ++ label width i := by
    rw [List.mem_append, not_or]
    exact ⟨hp, newline_not_mem_label width i⟩
  have hitem : rows (x.render (indent + width + 2)) = hang [] (indent + width + 2) x.layout := hx (indent + width + 2)
  rw [rows_append hmargin, hitem, hang_hang, hang_hang, List.append_nil, Nat.zero_add, Nat.add_assoc]

section Items

variable {items : List Reply} (h : ∀ r ∈ items, ∀ indent : Nat, rows (r.render indent) = hang [] indent r.layout)
include h

theorem rows_append_renderItems (t : Text) (indent width : Nat) {i : Nat} (hi : 1 < i) :
    rows (t ++ renderItems indent width i items) =
      rows t ++ hang (spaces indent) indent (listLayout width i items) := by
  induction items generalizing t i with
  | nil => rw [renderItems, listLayout, hang, List.append_nil, List.append_nil]
  | cons x xs ih =>
    have hitem : hang (label width i) (width + 2) x.layout ≠ [] := hang_ne_nil x.layout_ne_nil
    have hrest := ih (fun r hr => h r (List.mem_cons_of_mem x hr))
      (t ++ newline :: (spaces indent ++ label width i ++ x.render (indent + width + 2))) (Nat.lt_succ_of_lt hi)
    rw [rows_append_newline, rows_item (h x List.mem_cons_self) (newline_not_mem_spaces indent)] at hrest
    rw [renderItems, lead, if_pos hi, Int.toNat_natCast, listLayout, hang_append hitem]
    simpa only [List.append_assoc, List.cons_append] using hrest

theorem rows_renderItems (hne : items ≠ []) (indent width : Nat) :
    rows (renderItems indent width 1 items) = hang [] indent (listLayout width 1 items) := by
  obtain ⟨x, xs, rfl⟩ := List.exists_cons_of_ne_nil hne
  have hitem : hang (label width 1) (width + 2) x.layout ≠ [] := hang_ne_nil x.layout_ne_nil
  have hrest := rows_append_renderItems (fun r hr => h r (List.mem_cons_of_mem x hr))
    ([] ++ label width 1 ++ x.render (indent + width + 2)) indent width (Nat.lt_succ_self 1)
  rw [rows_item (h x List.mem_cons_self) List.not_mem_nil] at hrest
  rw [renderItems, lead, if_neg (Nat.lt_irrefl 1), listLayout, hang_append hitem]
  exact hrest

end Items

variable {r : Reply}

theorem Unbroken.rows_render (hr : r.Unbroken) (indent : Nat) :
    rows (r.render indent) = hang [] indent r.layout := by
  induction r using leafInduction generalizing indent with
  | leaf r hl =>
    rw [hl.layout_eq, hl.render_eq, rows_of_not_mem (hr.newline_not_mem_render hl)]
    rfl
  | array items hne ih =>
    cases hr with
    | array hi =>
      rw [render_array hne, layout_array hne]
      exact rows_renderItems (fun x hx n => ih x hx (hi x hx) n) hne indent _

theorem Unbroken.rows_render_zero (hr : r.Unbroken) : rows (r.render 0) = r.layout :=
  (hr.rows_render 0).trans (hang_nil_zero r.layout)

end Reply

end RespStore
