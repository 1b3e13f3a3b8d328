import RespStore.Pieces
import RespStore.Text.Basic

/-!
Glob patterns. A star stands for any run of elements and everything else for itself, over lists of
any kind. The pieces between the stars are placed as far left as they go, the last one at the end;
`Covers` says the same by the runs that the stars stand for.
-/

namespace RespStore.Glob

variable {α : Type} [DecidableEq α]

def afterFirst (p : List α) : List α → Option (List α)
  | [] => if p = [] then some [] else none
  | a :: r => if p.isPrefixOf (a :: r) then some ((a :: r).drop p.length) else afterFirst p r

def acceptsRest : List (List α) → List α → Bool
  | [], k => k.isEmpty
  | [p], k => p.isSuffixOf k
  | p :: ps, k => match afterFirst p k with
    | some r => acceptsRest ps r
    | none => false

def places : List (List α) → List α → Bool
  | [], _ => false
  | p :: ps, k => p.isPrefixOf k && acceptsRest ps (k.drop p.length)

def accepts (star : α) (pattern key : List α) : Bool :=
  if pattern = [star] then true
  else if star ∈ pattern then places (Pieces.split (· == star) pattern) key
  else key == pattern

/-- The key is the first piece, and then a run and a piece in turn. -/
inductive Covers : List (List α) → List α → Prop
  | single (p : List α) : Covers [p] p
  | star {p x k : List α} {ps : List (List α)} (rest : Covers ps k) : Covers (p :: ps) (p ++ x ++ k)

end RespStore.Glob

namespace RespStore.Text

def star : Glyph := .char '*'

def matchesGlob (pattern key : Text) : Bool := Glob.accepts star pattern key

end RespStore.Text
