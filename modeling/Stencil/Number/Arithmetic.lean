import Stencil.Expression.Tree
import Stencil.Number.Layout

/-!
# Arithmetic

A number is an integer of any size or a double. Integers stay exact as long as
only integers meet, except in a quotient, which is a double. An integer that
meets a double becomes the nearest double first.
-/

namespace Stencil

inductive Number where
  | int (n : Int)
  | float (x : Binary64)
deriving DecidableEq

inductive ArithmeticError where
  | zeroDivisor
  /-- An integer, or the quotient of two, is too large for a double. -/
  | tooLarge
  /-- A remainder by zero, or of an infinite dividend. -/
  | noRemainder
deriving DecidableEq, Repr

namespace Number

def toBinary : Number → Except ArithmeticError Binary64
  | float x => .ok x
  | int n => (Binary64.ofInt? n).elim (.error .tooLarge) .ok

def isZero : Number → Bool
  | int n => n == 0
  | float x => x.isZero

def viewText : Number → String
  | int n => String.ofList (Text.decimalInt n)
  | float x => x.viewText

/-! # The four operations -/

/-- Applies an operation on integers to two integers and one on doubles otherwise. -/
def mixed (onInts : Int → Int → Int) (onFloats : Binary64 → Binary64 → Binary64)
    (x y : Number) : Except ArithmeticError Number :=
  match x, y with
  | int a, int b => .ok (int (onInts a b))
  | x, y => do
      let a ← x.toBinary
      let b ← y.toBinary
      return float (onFloats a b)

def divide (x y : Number) : Except ArithmeticError Number :=
  match x, y with
  | int a, int b =>
      if b == 0 then .error .zeroDivisor
      else
        match Binary64.ofUnits (decide (a < 0) != decide (b < 0))
            (a.natAbs * Binary64.one) b.natAbs with
        | .infinity _ => .error .tooLarge
        | q => .ok (float q)
  | x, y => do
      let a ← x.toBinary
      let b ← y.toBinary
      if b.isZero then .error .zeroDivisor else return float (a.div b)

/--
The remainder with the sign of the dividend. It is taken between doubles, also
when both numbers are integers; the result is then an integer again.
-/
def remainder (x y : Number) : Except ArithmeticError Number := do
  let a ← x.toBinary
  let b ← y.toBinary
  match a.rem? b with
  | none => .error .noRemainder
  | some r =>
      match x, y, r.truncate? with
      | int _, int _, some n => return int n
      | _, _, _ => return float r

def apply (op : ArithmeticOp) (x y : Number) : Except ArithmeticError Number :=
  match op with
  | .add => mixed (· + ·) Binary64.add x y
  | .sub => mixed (· - ·) Binary64.sub x y
  | .mul => mixed (· * ·) Binary64.mul x y
  | .div => divide x y
  | .rem => remainder x y

def negate : Number → Number
  | int n => int (-n)
  | float x => float x.neg

/-! # Comparison -/

/-- Where a number lies against another, without rounding either. -/
def compare? (x y : Number) : Option Ordering :=
  match x, y with
  | int a, int b => some (compare a b)
  | int a, float b => (b.compareInt? a).map Ordering.swap
  | float a, int b => a.compareInt? b
  | float a, float b => a.compare? b

def equal (x y : Number) : Bool :=
  x.compare? y == some .eq

end Number

def ComparisonOp.holds (op : ComparisonOp) (order : Ordering) : Bool :=
  match op with
  | .lt => order == .lt
  | .le => order != .gt
  | .gt => order == .gt
  | .ge => order != .lt

end Stencil
