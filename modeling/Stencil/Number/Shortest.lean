import Stencil.Number.Binary64
import Stencil.Text.Numeral

/-!
# Shortest decimal digits

A finite double is written with the fewest decimal digits that read back as
that double, and among texts of that length with the nearest one. The doubles
that read back as a given one are those between the two points half way to its
neighbours, with these points included when its rank is even.
-/

namespace Stencil

/-- The number `coefficient * 10 ^ exponent`. -/
structure Decimal where
  coefficient : Nat
  exponent : Int
deriving DecidableEq, Repr

namespace Decimal

def digits (d : Decimal) : List Char :=
  Text.decimal d.coefficient

/-- Moves trailing zeros of the coefficient into the exponent. -/
def dropZeros : Nat → Decimal → Decimal
  | 0, d => d
  | fuel + 1, d =>
      if d.coefficient != 0 && d.coefficient % 10 == 0 then
        dropZeros fuel ⟨d.coefficient / 10, d.exponent + 1⟩
      else d

/-- How many places the point stands after the first digit's left edge. -/
def pointAt (d : Decimal) : Int :=
  (d.digits.length : Int) + d.exponent

end Decimal

namespace Binary64

def digitCount (n : Nat) : Nat :=
  (Nat.toDigits 10 n).length

def leadingExponent (num den : Nat) : Int :=
  if num ≥ den then (digitCount (num / den) : Int) - 1
  else -(digitCount ((den - 1) / num) : Int)

/-- The span of values that read back as one double, in half units. -/
structure Span where
  low : Nat
  high : Nat
  closed : Bool

def span (rank : Nat) : Span where
  low := units (rank - 1) + units rank
  high := units rank + units (rank + 1)
  closed := rank % 2 == 0

def Span.holds (s : Span) (c : Nat) (t : Int) : Bool :=
  let num := 2 * c * one * Nat.pow 10 t.toNat
  let den := Nat.pow 10 (-t).toNat
  if s.closed then s.low * den ≤ num && num ≤ s.high * den
  else s.low * den < num && num < s.high * den

/--
The points of the grid of step `10 ^ t` next to a value are `c` and `c + 1`
steps up. Of those that lie in the span the nearer is taken, and an even one
when both are as near.
-/
def onGrid? (rank : Nat) (t : Int) : Option Decimal :=
  let num := units rank * Nat.pow 10 (-t).toNat
  let den := one * Nat.pow 10 t.toNat
  let c := num / den
  let rest := 2 * (num % den)
  let s := span rank
  match s.holds c t, s.holds (c + 1) t with
  | true, true =>
      if rest < den || (rest == den && c % 2 == 0) then some ⟨c, t⟩ else some ⟨c + 1, t⟩
  | true, false => some ⟨c, t⟩
  | false, true => some ⟨c + 1, t⟩
  | false, false => none

/-- Tries ever finer grids, `left` of them, the first with step `10 ^ t`. -/
def searchGrids (rank : Nat) : Nat → Int → Decimal
  | 0, t => ⟨units rank * Nat.pow 10 (-t).toNat / (one * Nat.pow 10 t.toNat), t⟩
  | left + 1, t =>
      match onGrid? rank t with
      | some d => d
      | none => searchGrids rank left (t - 1)

/-- The shortest digits of the double of a positive rank, without trailing zeros. -/
def shortest (rank : Nat) : Decimal :=
  Decimal.dropZeros 20 (searchGrids rank 17 (leadingExponent (units rank) one))

end Binary64
end Stencil
