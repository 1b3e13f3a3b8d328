import Mathlib.Data.List.Forall2
import RespStore.Proofs.Console.Layout

/-! Items of arrays stand in columns. Wherever an array is inside a reply, its labels end in one column of the page and
its items stand to the right of that column, line by line and leaf by leaf. -/

namespace RespStore

open Render

namespace Render

def number (i : Nat) : Text := Text.ofNat i ++ Text.ofString ")"

theorem label_eq (width i : Nat) :
    label width i = spaces (width - (Text.ofNat i).length) ++ number i ++ spaces 1 := by
  rw [label, number]
  simp only [List.append_assoc]
  rfl

theorem length_number (i : Nat) : (number i).length = (Text.ofNat i).length + 1 := List.length_append

inductive Margin : Text → Prop
  | nil : Margin []
  | space {t : Text} (ht : Margin t) : Margin (spaces 1 ++ t)
  | number (i : Nat) {t : Text} (ht : Margin t) : Margin (number i ++ t)

theorem Margin.spaces (n : Nat) {t : Text} (ht : Margin t) : Margin (spaces n ++ t) := by
  induction n with
  | zero => exact ht
  | succ n ih => exact .space ih

theorem Margin.label (width i : Nat) {t : Text} (ht : Margin t) : Margin (label width i ++ t) := by
  rw [label_eq, List.append_assoc, List.append_assoc]
  exact .spaces _ (.number i (.space ht))

end Render

namespace Reply

def LeafRow (leaf : Reply) (line : Text) : Prop := ∃ margin, Margin margin ∧ line = margin ++ leaf.render 0

theorem LeafRow.append {leaf : Reply} {line u : Text} (hu : ∀ t, Margin t → Margin (u ++ t)) (h : LeafRow leaf line) :
    LeafRow leaf (u ++ line) := by
  obtain ⟨margin, hmargin, rfl⟩ := h
  exact ⟨u ++ margin, hu margin hmargin, (List.append_assoc _ _ _).symm⟩

theorem leafRows_hang {m : Text} {d : Nat} {rs : List Reply} {b : List Text}
    (hm : ∀ t, Margin t → Margin (m ++ t)) (h : List.Forall₂ LeafRow rs b) : List.Forall₂ LeafRow rs (hang m d b) := by
  have hspaces : ∀ t, Margin t → Margin (spaces d ++ t) := fun _ => Margin.spaces d
  cases h with
  | nil => exact .nil
  | cons hl hls =>
    refine .cons (hl.append hm) (List.forall₂_map_right_iff.mpr (hls.imp ?_))
    exact fun _ _ => LeafRow.append hspaces

theorem leafRows_items {items : List Reply} (h : ∀ r ∈ items, List.Forall₂ LeafRow r.leaves r.layout)
    (width i : Nat) : List.Forall₂ LeafRow (listLeaves items) (listLayout width i items) := by
  induction items generalizing i with
  | nil => exact .nil
  | cons x xs ih =>
    have hitem := leafRows_hang (d := width + 2) (fun _ => Margin.label width i) (h x List.mem_cons_self)
    exact List.rel_append hitem (ih (fun r hr => h r (List.mem_cons_of_mem x hr)) (i + 1))

theorem leafRows (r : Reply) : List.Forall₂ LeafRow r.leaves r.layout := by
  induction r using leafInduction with
  | leaf r hr =>
    rw [hr.leaves_eq, hr.layout_eq]
    exact .cons ⟨[], .nil, rfl⟩ .nil
  | array items hne ih =>
    rw [leaves_array hne, layout_array hne]
    exact leafRows_items ih _ 1

theorem length_layout (r : Reply) : r.layout.length = r.leaves.length := (leafRows r).length_eq.symm

theorem length_listLayout (items : List Reply) (width i : Nat) :
    (listLayout width i items).length = (listLeaves items).length :=
  (leafRows_items (fun r _ => leafRows r) width i).length_eq.symm

theorem leaves_ne_nil (r : Reply) : r.leaves ≠ [] := by
  intro h
  have hlength := length_layout r
  rw [h, List.length_nil, List.length_eq_zero_iff] at hlength
  exact r.layout_ne_nil hlength

theorem listLayout_append (xs ys : List Reply) (width i : Nat) :
    listLayout width i (xs ++ ys) = listLayout width i xs ++ listLayout width (i + xs.length) ys := by
  induction xs generalizing i with
  | nil => rfl
  | cons x xs ih =>
    rw [List.cons_append, listLayout, listLayout, ih, List.append_assoc, List.length_cons, Nat.add_right_comm,
      Nat.add_assoc]

theorem length_label {i n : Nat} (h : i ≤ n) :
    (label (Text.ofNat n).length i).length = (Text.ofNat n).length + 2 := by
  have hdigits : (Text.ofNat i).length ≤ (Text.ofNat n).length := Text.length_ofNat_mono h
  rw [label_eq, List.length_append, List.length_append, length_spaces, length_spaces, length_number]
  omega

theorem drawn_listLayout (before : List Reply) (x : Reply) (after : List Reply) {width i : Nat}
    (h : (label width (i + before.length)).length = width + 2) :
    Drawn (listLayout width i (before ++ x :: after)) (listLeaves before).length (label width (i + before.length))
      x.layout := by
  refine ⟨listLayout width i before, listLayout width (i + before.length + 1) after,
    length_listLayout before width i, ?_⟩
  rw [listLayout_append, listLayout, h, List.append_assoc]

theorem drawn_item {items : List Reply} {i : Nat} (hi : i < items.length) :
    Drawn (array items).layout (listLeaves (items.take i)).length (label (Text.ofNat items.length).length (i + 1))
      items[i].layout := by
  have hne : items ≠ [] := List.ne_nil_of_length_pos (Nat.zero_lt_of_lt hi)
  have hbefore : 1 + (items.take i).length = i + 1 := by rw [List.length_take_of_le (Nat.le_of_lt hi), Nat.add_comm]
  have hlabel : (label (Text.ofNat items.length).length (1 + (items.take i).length)).length =
      (Text.ofNat items.length).length + 2 := by
    rw [hbefore]
    exact length_label hi
  have hitems : items.take i ++ items[i] :: items.drop (i + 1) = items := by
    rw [List.getElem_cons_drop, List.take_append_drop]
  have hdrawn := drawn_listLayout (items.take i) items[i] (items.drop (i + 1)) hlabel
  rw [hitems, hbefore] at hdrawn
  rwa [layout_array hne]

/-- A reply inside another one, or that one itself, after so many of its leaves. -/
inductive Inside (s : Reply) : Nat → Reply → Prop
  | self : Inside s 0 s
  | item {items : List Reply} {i row : Nat} (hi : i < items.length) (h : Inside s row items[i]) :
    Inside s ((listLeaves (items.take i)).length + row) (.array items)

variable {r s : Reply} {row : Nat} {page : List Text} {m : Text} {items : List Reply}

theorem Inside.unbroken (h : s.Inside row r) (hr : r.Unbroken) : s.Unbroken := by
  induction h with
  | self => exact hr
  | item hi h ih =>
    cases hr with
    | array hitems => exact ih (hitems _ (List.getElem_mem hi))

theorem Inside.drawn (h : s.Inside row r) : ∃ m, Drawn r.layout row m s.layout := by
  induction h with
  | self =>
    have hself := drawn_hang [] s.layout
    rw [List.length_nil, hang_nil_zero] at hself
    exact ⟨[], hself⟩
  | item hi h ih =>
    obtain ⟨m, hm⟩ := ih
    exact ⟨_, (drawn_item hi).trans hm s.layout_ne_nil⟩

/-- The items of an array are on the page from a line on, each of them below the one before it. Their labels all end in
one column, where only spaces stand before a label but the first one, and each item hangs one space from its label. -/
def Aligned (page : List Text) (row : Nat) (items : List Reply) : Prop :=
  ∃ column, ∀ (i : Nat) (hi : i < items.length), ∃ left : Text,
    (left ++ number (i + 1)).length = column ∧ (0 < i → left = spaces left.length) ∧
      Drawn page (row + (listLeaves (items.take i)).length) (left ++ number (i + 1) ++ spaces 1)
        (rows (items[i].render 0))

theorem listLeaves_ne_nil (h : items ≠ []) : listLeaves items ≠ [] := by
  rw [← leaves_array h]
  exact leaves_ne_nil (array items)

theorem aligned_of_drawn (h : Drawn page row m (array items).layout) (hitems : ∀ x ∈ items, x.Unbroken) :
    Aligned page row items := by
  refine ⟨m.length + (Text.ofNat items.length).length + 1, fun i hi => ?_⟩
  have hdrawn := h.trans (drawn_item hi) items[i].layout_ne_nil
  have hrows : rows (items[i].render 0) = items[i].layout := (hitems _ (List.getElem_mem hi)).rows_render_zero
  have hlabel := length_label (i := i + 1) hi
  rw [label_eq, List.length_append, length_spaces] at hlabel
  rw [label_eq, ← List.append_assoc, ← List.append_assoc] at hdrawn
  refine ⟨_, ?_, fun hpos => ?_, hrows ▸ hdrawn⟩
  · rw [List.append_assoc, List.length_append, length_marginAt]
    omega
  · have hbefore : listLeaves (items.take i) ≠ [] :=
      listLeaves_ne_nil (List.ne_nil_of_length_pos (by rw [List.length_take_of_le (Nat.le_of_lt hi)]; exact hpos))
    rw [marginAt_of_ne (mt List.length_eq_zero_iff.mp hbefore), spaces_append, length_spaces]

/-- A reply is printed with one line for each of its leaves, in their order, and if the page is at the column that the
reply is printed for, the items of every array inside the reply are aligned on the page. -/
theorem render_aligned (hr : r.Unbroken) (indent : Nat) :
    List.Forall₂ LeafRow r.leaves (rows (r.render indent)) ∧
      ∀ before : Text, newline ∉ before → before.length = indent → ∀ row items, (array items).Inside row r →
        Aligned (rows (before ++ r.render indent)) row items := by
  constructor
  · rw [hr.rows_render]
    exact leafRows_hang (fun _ => id) (leafRows r)
  · rintro before hbefore rfl row items hinside
    obtain ⟨m, hm⟩ := hinside.drawn
    have hpage : rows (before ++ r.render before.length) = hang before before.length r.layout := by
      rw [rows_append hbefore, hr.rows_render, hang_hang, List.append_nil, Nat.zero_add]
    have hdrawn := (drawn_hang before r.layout).trans hm (array items).layout_ne_nil
    rw [← hpage, Nat.zero_add] at hdrawn
    cases hinside.unbroken hr with
    | array hitems => exact aligned_of_drawn hdrawn hitems

def tenItems : List Reply :=
  [.array [.array [.status (.ofString "OK"), .null], .array []], .error (.ofBytes [69, 255]), .integer (-7), .null,
    .null, .null, .null, .null, .bulk [97, 255], .array [.bulk [98], .integer 0]]

theorem unbroken_tenItems : (array tenItems).Unbroken := by
  have hstatus : newline ∉ Text.ofString "OK" := by decide
  have herror : newline ∉ Text.ofBytes [69, 255] := by decide +kernel
  have hpair : (array [.status (.ofString "OK"), .null]).Unbroken :=
    .array (List.forall_mem_cons.mpr ⟨.status hstatus, List.forall_mem_singleton.mpr .null⟩)
  have hempty : (array []).Unbroken := .array (List.forall_mem_nil _)
  have hfirst : (array [array [status (.ofString "OK"), null], array []]).Unbroken :=
    .array (List.forall_mem_cons.mpr ⟨hpair, List.forall_mem_singleton.mpr hempty⟩)
  have hlast : (array [.bulk [98], .integer 0]).Unbroken :=
    .array (List.forall_mem_cons.mpr ⟨.bulk (by decide), List.forall_mem_singleton.mpr (.integer 0)⟩)
  refine .array ?_
  simp only [tenItems, List.forall_mem_cons, List.not_mem_nil, false_imp_iff, implies_true, and_true]
  exact ⟨hfirst, .error herror, .integer (-7), .null, .null, .null, .null, .null, .bulk (by decide), hlast⟩

def tenItemsPage : List Text :=
  [.ofString ">  1) 1) 1) OK", .ofString "         2) (nil)", .ofString "      2) (empty array)",
    Text.ofString "   2) (error) E" ++ [.stray 255], .ofString "   3) (integer) -7", .ofString "   4) (nil)",
    .ofString "   5) (nil)", .ofString "   6) (nil)", .ofString "   7) (nil)", .ofString "   8) (nil)",
    .ofString "   9) \"a\\xff\"", .ofString "  10) 1) \"b\"", .ofString "      2) (integer) 0"]

theorem render_aligned_tenItems :
    rows (Text.ofString "> " ++ (array tenItems).render 2) = tenItemsPage ∧
      List.Forall₂ LeafRow (array tenItems).leaves (rows ((array tenItems).render 2)) ∧
      Aligned tenItemsPage 0 tenItems ∧ Aligned tenItemsPage 0 [.status (.ofString "OK"), .null] ∧
      Aligned tenItemsPage 11 [.bulk [98], .integer 0] := by
  have hrows : rows (Text.ofString "> " ++ (array tenItems).render 2) = tenItemsPage := by decide +kernel
  have hfirst : (array [.status (.ofString "OK"), .null]).Inside 0 (array tenItems) :=
    @Inside.item _ tenItems 0 0 (by decide) (@Inside.item _ _ 0 0 (by decide) .self)
  have hlast : (array [.bulk [98], .integer 0]).Inside 11 (array tenItems) :=
    @Inside.item _ tenItems 9 0 (by decide) .self
  obtain ⟨hleaves, haligned⟩ := render_aligned unbroken_tenItems 2
  have hpage := haligned (.ofString "> ") (by decide) rfl
  have hindent : ((2 : Nat) : Int) = 2 := rfl
  rw [hindent, hrows] at hpage
  exact ⟨hrows, hleaves, hpage 0 tenItems .self, hpage 0 _ hfirst, hpage 11 _ hlast⟩

end Reply

end RespStore
