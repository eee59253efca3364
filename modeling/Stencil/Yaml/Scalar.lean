import Stencil.Number.Reading
import Stencil.Value.Basic
import Stencil.Yaml.Moment

/-!
# Plain scalars of YAML

A scalar without quotes stands for a value of the kind it looks like: null, a truth
value, a whole number in one of several bases, a number with a point, or a date.
Anything else is a text. Dates are values that nothing is done with.
-/

namespace Stencil
namespace Yaml

def nullWords : List String := ["", "~", "null", "Null", "NULL"]

def trueWords : List String :=
  ["yes", "Yes", "YES", "true", "True", "TRUE", "on", "On", "ON"]

def falseWords : List String :=
  ["no", "No", "NO", "false", "False", "FALSE", "off", "Off", "OFF"]

/-! # Digits -/

/-- The value of a digit, which may be a letter in bases above ten. -/
def digit? (c : Char) : Option Nat :=
  if c.isDigit then some (c.toNat - '0'.toNat)
  else if 'a' ≤ c && c ≤ 'f' then some (c.toNat - 'a'.toNat + 10)
  else if 'A' ≤ c && c ≤ 'F' then some (c.toNat - 'A'.toNat + 10)
  else none

def isDigitOf (base : Nat) (c : Char) : Bool :=
  match digit? c with
  | some d => d < base
  | none => false

def isDigitOrMark (base : Nat) (c : Char) : Bool :=
  c == '_' || isDigitOf base c

/-- The number that digits denote; underscores do not count. -/
def digitsValue (base : Nat) (cs : List Char) : Nat :=
  (cs.filterMap digit?).foldl (fun n d => n * base + d) 0

def based? (base : Nat) (cs : List Char) : Option Nat :=
  if !cs.isEmpty && cs.all (isDigitOrMark base) then some (digitsValue base cs) else none

/-! # Whole numbers -/

/-- A group of a number in base sixty: one or two digits below sixty. -/
def sixty? : List Char → Option Nat
  | [a] => if a.isDigit then some (digitsValue 10 [a]) else none
  | [a, b] => if isDigitOf 6 a && b.isDigit then some (digitsValue 10 [a, b]) else none
  | _ => none

def sixtyGroups? (first : List Char) (groups : List (List Char)) : Option Nat :=
  (groups.mapM sixty?).map fun values =>
    values.foldl (fun n group => n * 60 + group) (digitsValue 10 first)

def isPositiveStart (cs : List Char) : Bool :=
  match cs with
  | c :: rest => c.isDigit && c != '0' && rest.all (isDigitOrMark 10)
  | [] => false

def magnitude? (cs : List Char) : Option Nat :=
  match cs with
  | ['0'] => some 0
  | '0' :: 'b' :: rest => based? 2 rest
  | '0' :: 'x' :: rest => based? 16 rest
  | '0' :: rest => based? 8 rest
  | cs =>
      match cs.splitOnP (· == ':') with
      | [only] => if isPositiveStart only then some (digitsValue 10 only) else none
      | first :: groups => if isPositiveStart first then sixtyGroups? first groups else none
      | [] => none

def wholeNumber? : List Char → Option Int
  | '-' :: rest => (magnitude? rest).map fun n => -(n : Int)
  | '+' :: rest => (magnitude? rest).map Int.ofNat
  | cs => (magnitude? cs).map Int.ofNat

/-! # Numbers with a point -/

def isExponent : List Char → Bool
  | [] => true
  | e :: sign :: d :: rest =>
      (e == 'e' || e == 'E') && (sign == '+' || sign == '-') && d.isDigit && rest.all Char.isDigit
  | _ => false

def isPointNumber (signed : Bool) (cs : List Char) : Bool :=
  let whole := cs.takeWhile (isDigitOrMark 10)
  match cs.drop whole.length with
  | '.' :: rest =>
      let places := rest.takeWhile (isDigitOrMark 10)
      let exponent := rest.drop places.length
      isExponent exponent &&
        match whole with
        | c :: _ => c.isDigit
        | [] => !signed && (places.head?.map Char.isDigit).getD false
  | _ => false

/-- A number in base sixty with places in base ten, written in base ten. -/
def sixtyPoint? (cs : List Char) : Option (List Char) :=
  let whole := cs.takeWhile (· != '.')
  match cs.drop whole.length, whole.splitOnP (· == ':') with
  | '.' :: places, first :: group :: groups =>
      if (first.head?.map Char.isDigit).getD false && first.all (isDigitOrMark 10) &&
          places.all (isDigitOrMark 10) then
        (sixtyGroups? first (group :: groups)).map fun n => Nat.toDigits 10 n ++ '.' :: places
      else none
  | _, _ => none

def infinityWords : List String := [".inf", ".Inf", ".INF"]

def nanWords : List String := [".nan", ".NaN", ".NAN"]

def pointNumber? (cs : List Char) : Option Binary64 :=
  let (negative, signed, body) := match cs with
    | '-' :: rest => (true, true, rest)
    | '+' :: rest => (false, true, rest)
    | cs => (false, false, cs)
  if infinityWords.contains (String.ofList body) then some (.infinity negative)
  else if !signed && nanWords.contains (String.ofList body) then some (.nan 0)
  else do
    let digits ← if isPointNumber signed body then some body else sixtyPoint? body
    let x ← NumberText.float? (String.ofList (digits.filter (· != '_')))
    return if negative then x.neg else x

/-! # Values -/

/-- The value that a plain scalar stands for. -/
def plainValue (cs : List Char) : Value :=
  let text := String.ofList cs
  if nullWords.contains text then .null
  else if trueWords.contains text then .bool true
  else if falseWords.contains text then .bool false
  else
    match wholeNumber? cs with
    | some n => .int n
    | none =>
        match pointNumber? cs, moment? cs with
        | some x, _ => .float x
        | none, some moment => .host 0 moment.typeName text []
        | none, none => .str text

mutual

/-- Whether a value holds a text that looks like a date and is none. -/
def hasImpossibleDate : Value → Bool
  | .host _ _ text _ => !((moment? text.toList).map Moment.isReal).getD true
  | .list items => itemsImpossible items
  | .map entries => entriesImpossible entries
  | _ => false

def itemsImpossible : List Value → Bool
  | [] => false
  | v :: rest => hasImpossibleDate v || itemsImpossible rest

def entriesImpossible : List (Key × Value) → Bool
  | [] => false
  | (_, v) :: rest => hasImpossibleDate v || entriesImpossible rest

end

end Yaml
end Stencil
