import RespStore.Proofs.Wire.Steady

/-! Scans go on where they stopped. With more bytes a scan finds the same request and leaves the new bytes
too, or takes up its draft, or stays at fault. -/

namespace RespStore.Wire

def Scan.Then (limits : Limits) (s : Scan) (x : Bytes) (t : Scan) : Prop :=
  match s.found with
  | .ok (some _) => t = { s with rest := s.rest ++ x }
  | .ok none => t = scan limits (s.rest ++ x) s.draft
  | .error e => e.isTooBig = false → t.found = .error e

variable (limits : Limits) (x : Bytes)

theorem fill_then (n : Nat) (args : List Bytes) (b : Bytes) :
    (fill limits n args b).Then limits x (fill limits n args (b ++ x)) := by
  induction n generalizing args b with
  | zero => exact rfl
  | succ n ih =>
    cases ha : argument limits b with
    | more =>
      have hs : fill limits (n + 1) args b = ⟨.ok none, some ⟨n + 1, args⟩, b⟩ := by rw [fill, ha]
      rw [hs]
      exact rfl
    | fault e =>
      have hs : fill limits (n + 1) args b = ⟨.error e, some ⟨n + 1, args⟩, b⟩ := by rw [fill, ha]
      rw [hs]
      intro he
      rw [fill, (argument_steady limits).fault ha he x]
    | done a rest =>
      have hs : fill limits (n + 1) args b = fill limits n (a :: args) rest := by rw [fill, ha]
      have hx : fill limits (n + 1) args (b ++ x) = fill limits n (a :: args) (rest ++ x) := by
        rw [fill, (argument_steady limits).done ha x]
      rw [hs, hx]
      exact ih (a :: args) rest

theorem seek_then (b : Bytes) : (seek limits b).Then limits x (seek limits (b ++ x)) := by
  have ho := opening_steady limits
  fun_induction seek limits b with
  | case1 b h => exact rfl
  | case2 b e h =>
    intro he
    rw [seek_eq, ho.fault h he x]
  | case3 b rest h ih =>
    rw [seek_eq limits (b ++ x), ho.done h x]
    exact ih
  | case4 b n rest h =>
    rw [seek_eq limits (b ++ x), ho.done h x]
    exact fill_then limits x n [] rest
  | case5 b w ws rest h =>
    rw [seek_eq limits (b ++ x), ho.done h x]
    exact rfl

theorem scan_then (b : Bytes) (d : Option Draft) :
    (scan limits b d).Then limits x (scan limits (b ++ x) d) := by
  cases d with
  | none => exact seek_then limits x b
  | some d => exact fill_then limits x d.missing d.args b

end RespStore.Wire
