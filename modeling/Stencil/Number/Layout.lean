import Stencil.Number.Reading

/-!
# Number texts

Two layouts turn the shortest digits of a double into text. In data files and
logs the text always shows that the number is a double. In views a number looks
as page authors expect: whole numbers have no point, and a number whose text as
data has an exponent is laid out again, without padding and over a wider range
of places.

With digits `d1 ... dk` and the point after the `n`-th place, a layout is
positional for `n` between its two limits and has an exponent elsewhere.
-/

namespace Stencil

structure NumberLayout where
  /-- The least place of the point that is written positionally. -/
  lowest : Int
  /-- The greatest place of the point that is written positionally. -/
  highest : Int
  /-- What follows the digits of a whole number. -/
  wholeMark : List Char
  /-- The least number of digits in an exponent. -/
  exponentWidth : Nat

namespace NumberLayout

/-- Numbers in the output of a view that have an exponent in data files. -/
def view : NumberLayout where
  lowest := -5
  highest := 21
  wholeMark := []
  exponentWidth := 1

def data : NumberLayout where
  lowest := -3
  highest := 16
  wholeMark := ['.', '0']
  exponentWidth := 2

def zeros (n : Nat) : List Char :=
  List.replicate n '0'

def exponentText (layout : NumberLayout) (e : Int) : List Char :=
  let digits := Text.decimal e.natAbs
  let sign := if e < 0 then '-' else '+'
  'e' :: sign :: (zeros (layout.exponentWidth - digits.length) ++ digits)

def withExponent (layout : NumberLayout) (digits : List Char) (point : Int) : List Char :=
  let mantissa :=
    match digits with
    | first :: second :: rest => first :: '.' :: second :: rest
    | short => short
  mantissa ++ layout.exponentText (point - 1)

/-- The text of a positive number with the given digits and place of the point. -/
def place (layout : NumberLayout) (digits : List Char) (point : Int) : List Char :=
  if point < layout.lowest || layout.highest < point then
    layout.withExponent digits point
  else if point ≤ 0 then
    '0' :: '.' :: (zeros (-point).toNat ++ digits)
  else if (digits.length : Int) ≤ point then
    digits ++ zeros (point.toNat - digits.length) ++ layout.wholeMark
  else
    digits.take point.toNat ++ '.' :: digits.drop point.toNat

def signed (negative : Bool) (text : List Char) : List Char :=
  if negative then '-' :: text else text

/-- The text of a finite double. -/
def finite (layout : NumberLayout) (negative : Bool) (rank : Nat) : List Char :=
  if rank == 0 then signed negative ('0' :: layout.wholeMark)
  else
    let d := Binary64.shortest rank
    signed negative (layout.place d.digits d.pointAt)

/-- Lays out again, for a view, a number that is written with an exponent. -/
def respelled (text : List Char) : List Char :=
  let (mantissa, exponent) := text.span (· != 'e')
  if exponent.isEmpty then text
  else
    let (negative, digits) := NumberText.sign mantissa
    let power := (NumberText.exponent? exponent).getD 0
    signed negative (view.place (digits.filter (· != '.')) (power + 1))

end NumberLayout

namespace Binary64

def placesText (places : Nat) : Binary64 → String
  | nan _ => "nan"
  | infinity false => "inf"
  | infinity true => "-inf"
  | finite negative rank =>
      let scale := Nat.pow 10 places
      let scaled := roundQuotient (units rank * scale) one
      let fraction := Text.decimal (scaled % scale)
      String.ofList (NumberLayout.signed negative (Text.decimal (scaled / scale) ++
        '.' :: (NumberLayout.zeros (places - fraction.length) ++ fraction)))

/-- The text of a double in data files and logs. -/
def dataText : Binary64 → String
  | nan _ => "nan"
  | infinity false => "inf"
  | infinity true => "-inf"
  | finite negative rank => String.ofList (NumberLayout.data.finite negative rank)

/--
The text of a double in the output of a view. Whole numbers below `10 ^ 21` are
written with all their digits.
-/
def viewText (x : Binary64) : String :=
  match x with
  | nan _ => "NaN"
  | infinity false => "Infinity"
  | infinity true => "-Infinity"
  | finite negative rank =>
      String.ofList ((x.toInt?.filter (·.natAbs < Nat.pow 10 21)).elim
        (NumberLayout.respelled (NumberLayout.data.finite negative rank)) Text.decimalInt)

end Binary64
end Stencil
