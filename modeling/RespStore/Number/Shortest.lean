import RespStore.Number.Binary64
import RespStore.Number.Numeral

/-!
The fewest digits that read back as a double, and of those the digits nearest to it.
-/

namespace RespStore

structure Decimal where
  digits : Nat
  exponent : Int
deriving DecidableEq

namespace Decimal

def readsBack (m : Magnitude) (d : Decimal) : Bool :=
  Magnitude.nearest (d.digits * 10 ^ d.exponent.toNat * Binary64.one) (10 ^ (-d.exponent).toNat) = some m

def steps (m : Magnitude) (exponent : Int) : Nat × Nat :=
  (m.units * 10 ^ (-exponent).toNat, Binary64.one * 10 ^ exponent.toNat)

def onGrid? (m : Magnitude) (exponent : Int) : Option Decimal :=
  let (n, d) := steps m exponent
  let low : Decimal := ⟨n / d, exponent⟩
  let high : Decimal := ⟨n / d + 1, exponent⟩
  match readsBack m low, readsBack m high with
  | true, true =>
    if d < 2 * (n % d) ∨ (d = 2 * (n % d) ∧ n / d % 2 = 1) then some high else some low
  | true, false => some low
  | false, true => some high
  | false, false => none

def pointPlace (m : Magnitude) : Int :=
  (Numeral.ofNat (m.units * 10 ^ 324 / Binary64.one)).length - 324

def shortest (m : Magnitude) : Decimal :=
  let place := pointPlace m
  match (List.range 17).findSome? fun k => onGrid? m (place - (k + 1 : Nat)) with
  | some d => d
  | none => ⟨(steps m (place - 17)).1 / (steps m (place - 17)).2, place - 17⟩

end Decimal

namespace Binary64

def stripZeros (ds : List Char) : List Char := (ds.reverse.dropWhile (· = '0')).reverse

def decimalDigits (m : Magnitude) : List Char × Int :=
  if m.units = 0 then (['0'], 1)
  else
    let d := Decimal.shortest m
    let ds := Nat.toDigits 10 d.digits
    (stripZeros ds, ds.length + d.exponent)

def positional (ds : List Char) (place : Int) : List Char :=
  if place ≤ 0 then '0' :: '.' :: List.replicate (-place).toNat '0' ++ ds
  else if ds.length ≤ place then ds ++ List.replicate (place.toNat - ds.length) '0' ++ ['.', '0']
  else ds.take place.toNat ++ '.' :: ds.drop place.toNat

def scientific (ds : List Char) (place : Int) : List Char :=
  let e := place - 1
  let es := Nat.toDigits 10 e.natAbs
  let tail := match ds.drop 1 with
    | [] => []
    | more => '.' :: more
  ds.take 1 ++ tail ++ 'e' :: (if e < 0 then '-' else '+') :: (if es.length < 2 then '0' :: es else es)

def magnitudeChars (m : Magnitude) : List Char :=
  let (ds, place) := decimalDigits m
  if -4 < place ∧ place ≤ 16 then positional ds place else scientific ds place

def toChars : Binary64 → List Char
  | finite negative m => (if negative then ['-'] else []) ++ magnitudeChars m
  | infinite negative => (if negative then ['-'] else []) ++ ['i', 'n', 'f']
  | nan => ['n', 'a', 'n']

end Binary64

end RespStore
