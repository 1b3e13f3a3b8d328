import Mathlib.Data.List.FinRange
import RespStore.Keyspace.Lists

/-! The window of a list. The ends of a range are moved into the list before anything is taken, the first one only up
and the second one only down; so an end that was before the list or behind it never counts from the other side. -/

namespace RespStore.Keyspace

variable {α : Type} {n : Nat} {start stop : Int} {items : List Bytes}

def addressed (n : Nat) (start stop : Int) : List (Fin n) :=
  (List.finRange n).filter fun i => place n start ≤ i ∧ i ≤ place n stop

theorem mem_addressed {i : Fin n} : i ∈ addressed n start stop ↔ place n start ≤ i ∧ i ≤ place n stop := by
  simp [addressed]

theorem addressed_eq_nil_iff :
    addressed n start stop = [] ↔ ∀ i : Nat, i < n → ¬(place n start ≤ i ∧ i ≤ place n stop) := by
  rw [List.eq_nil_iff_forall_not_mem]
  exact ⟨fun h i hi hplace => h ⟨i, hi⟩ (mem_addressed.mpr hplace), fun h i hi => h i i.isLt (mem_addressed.mp hi)⟩

theorem drop_take_eq_map_get (xs : List α) (i j : Nat) :
    (xs.take j).drop i = ((List.finRange xs.length).filter fun p => i ≤ p.val ∧ p.val < j).map xs.get := by
  induction xs generalizing i j with
  | nil => simp
  | cons x xs ih =>
    cases j with
    | zero => simp
    | succ j =>
      have hrest : ∀ i, (xs.take j).drop i =
          ((List.finRange xs.length).filter fun p => i ≤ p.val ∧ p.val < j).map fun p => xs[p.val] := fun i => ih i j
      cases i with
      | zero => simpa [List.finRange_succ, List.filter_map, Function.comp_def] using hrest 0
      | succ i => simpa [List.finRange_succ, List.filter_map, Function.comp_def] using hrest i

theorem sliceEnd_of_le {i : Int} (h0 : 0 ≤ i) (hn : i ≤ n) : (sliceEnd n i : Int) = i := by
  rw [sliceEnd, place, if_neg (Int.not_lt.mpr h0)]
  omega

theorem window_cases (start stop : Int) (items : List Bytes) :
    (window start stop items = [] ∧ addressed items.length start stop = []) ∨
      ∃ i j : Nat, i < j ∧ j ≤ items.length ∧ window start stop items = slice i j items ∧
        ∀ p, p < items.length → ((i ≤ p ∧ p < j) ↔ (place items.length start ≤ p ∧ p ≤ place items.length stop)) := by
  rw [addressed_eq_nil_iff]
  unfold window
  generalize place items.length start = x
  generalize place items.length stop = y
  dsimp only
  split
  · rename_i hempty
    exact .inl ⟨rfl, fun i hi => by omega⟩
  · rename_i hwithin
    refine .inr ⟨(max x 0).toNat, (min y (items.length - 1) + 1).toNat, by omega, by omega, ?_, fun p hp => by omega⟩
    rw [Int.toNat_of_nonneg (by omega), Int.toNat_of_nonneg (by omega)]

theorem slice_eq {i j : Nat} (hi : i ≤ items.length) (hj : j ≤ items.length) :
    slice i j items = (items.take j).drop i := by
  have hfirst : (sliceEnd items.length i : Int) = i := sliceEnd_of_le (Int.natCast_nonneg i) (Int.ofNat_le.mpr hi)
  have hlast : (sliceEnd items.length j : Int) = j := sliceEnd_of_le (Int.natCast_nonneg j) (Int.ofNat_le.mpr hj)
  rw [slice, Int.ofNat.inj hfirst, Int.ofNat.inj hlast]

theorem window_eq (start stop : Int) (items : List Bytes) :
    window start stop items = (addressed items.length start stop).map items.get := by
  rcases window_cases start stop items with ⟨hwindow, hnone⟩ | ⟨i, j, hij, hj, hwindow, hplace⟩
  · rw [hwindow, hnone, List.map_nil]
  · rw [hwindow, slice_eq (by omega) hj, drop_take_eq_map_get, addressed]
    refine congrArg (List.map items.get) (List.filter_congr fun p _ => ?_)
    rw [decide_eq_decide]
    exact hplace p p.isLt

theorem window_whole (items : List Bytes) : window 0 (-1) items = items := by
  have hall : addressed items.length 0 (-1) = List.finRange items.length := by
    refine List.filter_eq_self.mpr fun p _ => decide_eq_true ?_
    have hp := p.isLt
    simp only [place]
    omega
  rw [window_eq, hall, List.map_get_finRange]

theorem window_eq_nil_iff :
    window start stop items = [] ↔
      ∀ i : Nat, i < items.length → ¬(place items.length start ≤ i ∧ i ≤ place items.length stop) := by
  rw [window_eq, List.map_eq_nil_iff, addressed_eq_nil_iff]

/-- A range of a list gives its items with the indices from the one end to the other, in order, and none only where
there is no such index; and it is taken from the list between two places that lie in it. -/
theorem listRange_addressed {now : Instant} {k : Text} {s : Keyspace} {items : List Bytes}
    (h : itemsOf (s.live? now k) = .ok items) (start stop : Int) :
    (s.listRange now k start stop).1 = .ok ((addressed items.length start stop).map items.get) ∧
      ((s.listRange now k start stop).1 = .ok [] ↔
        ∀ i : Nat, i < items.length → ¬(place items.length start ≤ i ∧ i ≤ place items.length stop)) ∧
      ((s.listRange now k start stop).1 = .ok [] ∨
        ∃ i j : Nat, i < j ∧ j ≤ items.length ∧ (s.listRange now k start stop).1 = .ok ((items.take j).drop i)) := by
  have hrange : (s.listRange now k start stop).1 = .ok (window start stop items) := by
    rw [listRange, readItems, visit, h]
    rfl
  rw [hrange, Except.ok.injEq, Except.ok.injEq, window_eq_nil_iff]
  refine ⟨window_eq start stop items, Iff.rfl, ?_⟩
  rcases window_cases start stop items with ⟨hwindow, -⟩ | ⟨i, j, hij, hj, hwindow, -⟩
  · exact .inl (window_eq_nil_iff.mp hwindow)
  · exact .inr ⟨i, j, hij, hj, by rw [hwindow, slice_eq (by omega) hj]⟩

def threeItems : Keyspace := [(.ofString "l", ⟨.list [[97], [98], [99]], none⟩)]

theorem listRange_addressed_farBefore :
    (threeItems.listRange .zero (.ofString "l") (-(10 ^ 30)) (-2)).1 = .ok [[97], [98]] ∧
      (threeItems.listRange .zero (.ofString "l") 1 (-(10 ^ 30))).1 = .ok [] := by
  have hitems : itemsOf (threeItems.live? .zero (.ofString "l")) = .ok [[97], [98], [99]] := by rfl
  have hfirst := (listRange_addressed hitems (-(10 ^ 30)) (-2)).1
  have hnone := (listRange_addressed hitems 1 (-(10 ^ 30))).2.1
  exact ⟨hfirst.trans (by rfl), hnone.mpr (by decide +kernel)⟩

end RespStore.Keyspace
