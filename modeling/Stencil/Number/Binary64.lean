/-!
# Double precision numbers

Every finite double is a whole multiple of `2 ^ -1074`, the smallest one above
zero. The non-negative finite doubles are counted in order: `rank 0` is zero,
and a rank holds eleven bits of exponent above fifty-two bits of fraction. So
the next double has the next rank, and rounding up into the next power of two
needs no case of its own.

A value that is not a number carries a mark. Marks tell apart such values that
different operations made; no operation reads one.
-/

namespace Stencil

def finiteRanks : Nat := 2047 * Nat.pow 2 52

inductive Binary64 where
  | nan (mark : Nat)
  | infinity (negative : Bool)
  | finite (negative : Bool) (rank : Fin finiteRanks)
deriving DecidableEq

namespace Binary64

/-- How many multiples of `2 ^ -1074` lie below the double of a rank. -/
def units (rank : Nat) : Nat :=
  let binade := Nat.pow 2 52
  if rank < binade then rank else (binade + rank % binade) * Nat.pow 2 (rank / binade - 1)

def one : Nat := Nat.pow 2 1074

/-- The whole number nearest to a quotient; a half goes to the even neighbour. -/
def roundQuotient (num den : Nat) : Nat :=
  let whole := num / den
  let rest := 2 * (num % den)
  if rest > den || (rest == den && whole % 2 == 1) then whole + 1 else whole

/--
The rank nearest to a quotient of units. The result may lie past the last
finite rank, which is the mark of an overflow.
-/
def nearestRank (num den : Nat) : Nat :=
  let exponent := (num / den).log2 - 52
  exponent * Nat.pow 2 52 + roundQuotient num (den * Nat.pow 2 exponent)

def ofRank (negative : Bool) (rank : Nat) : Binary64 :=
  if h : rank < finiteRanks then finite negative ⟨rank, h⟩ else infinity negative

def ofUnits (negative : Bool) (num den : Nat) : Binary64 :=
  ofRank negative (nearestRank num den)

def zero (negative : Bool) : Binary64 :=
  finite negative ⟨0, by decide⟩

/-- A result that is not a number; whoever keeps it gives it a mark. -/
def undefinedResult : Binary64 := nan 0

/-! # Reading a double -/

def isNaN : Binary64 → Bool
  | nan _ => true
  | _ => false

def isFinite : Binary64 → Bool
  | finite _ _ => true
  | _ => false

def isZero : Binary64 → Bool
  | finite _ rank => rank.val == 0
  | _ => false

def negative : Binary64 → Bool
  | nan _ => false
  | infinity n => n
  | finite n _ => n

def toInt? : Binary64 → Option Int
  | finite n rank =>
      if units rank % one == 0 then
        let whole : Int := (units rank / one : Nat)
        some (if n then -whole else whole)
      else none
  | _ => none

def truncate? : Binary64 → Option Int
  | finite n rank =>
      let whole : Int := (units rank / one : Nat)
      some (if n then -whole else whole)
  | _ => none

/-! # Conversion and arithmetic -/

def bounded? : Binary64 → Option Binary64
  | infinity _ => none
  | x => some x

def ofInt? (n : Int) : Option Binary64 :=
  (ofUnits (n < 0) (n.natAbs * one) 1).bounded?

def neg : Binary64 → Binary64
  | nan _ => undefinedResult
  | infinity n => infinity (!n)
  | finite n rank => finite (!n) rank

def ofSignedUnits (n : Int) : Binary64 :=
  ofUnits (n < 0) n.natAbs 1

def add (x y : Binary64) : Binary64 :=
  match x, y with
  | nan _, _ => undefinedResult
  | _, nan _ => undefinedResult
  | infinity m, infinity n => if m == n then infinity m else undefinedResult
  | infinity m, finite _ _ => infinity m
  | finite _ _, infinity n => infinity n
  | finite m a, finite n b =>
      let left : Int := if m then -(units a : Int) else units a
      let right : Int := if n then -(units b : Int) else units b
      if left + right == 0 then zero (m && n) else ofSignedUnits (left + right)

def sub (x y : Binary64) : Binary64 :=
  add x (neg y)

def mul (x y : Binary64) : Binary64 :=
  match x, y with
  | nan _, _ => undefinedResult
  | _, nan _ => undefinedResult
  | infinity m, infinity n => infinity (m != n)
  | infinity m, finite n b => if b.val == 0 then undefinedResult else infinity (m != n)
  | finite m a, infinity n => if a.val == 0 then undefinedResult else infinity (m != n)
  | finite m a, finite n b => ofUnits (m != n) (units a * units b) one

/-- The quotient of two doubles; the divisor is not zero. -/
def div (x y : Binary64) : Binary64 :=
  match x, y with
  | nan _, _ => undefinedResult
  | _, nan _ => undefinedResult
  | infinity _, infinity _ => undefinedResult
  | infinity m, finite n _ => infinity (m != n)
  | finite m _, infinity n => zero (m != n)
  | finite m a, finite n b => ofUnits (m != n) (units a * one) (units b)

/--
The remainder that keeps the sign of the dividend. It is exact. There is none
for a zero divisor or an infinite dividend.
-/
def rem? (x y : Binary64) : Option Binary64 :=
  match x, y with
  | nan _, _ => some undefinedResult
  | _, nan _ => some undefinedResult
  | infinity _, _ => none
  | finite m a, infinity _ => some (finite m a)
  | finite m a, finite _ b =>
      if b.val == 0 then none else some (ofUnits m (units a % units b) 1)

/-! # Comparison -/

/-- Where a value lies against another; nothing if either is not a number. -/
def compare? (x y : Binary64) : Option Ordering :=
  match x, y with
  | nan _, _ => none
  | _, nan _ => none
  | infinity m, infinity n =>
      some (if m == n then .eq else if m then .lt else .gt)
  | infinity m, finite _ _ => some (if m then .lt else .gt)
  | finite _ _, infinity n => some (if n then .gt else .lt)
  | finite m a, finite n b =>
      let left : Int := if m then -(units a : Int) else units a
      let right : Int := if n then -(units b : Int) else units b
      some (compare left right)

/-- Where a double lies against an integer, both taken exactly. -/
def compareInt? (x : Binary64) (n : Int) : Option Ordering :=
  match x with
  | nan _ => none
  | infinity m => some (if m then .lt else .gt)
  | finite m a =>
      let left : Int := if m then -(units a : Int) else units a
      some (compare left (n * (one : Nat)))

end Binary64
end Stencil
