import Stencil.Number.Shortest
import Stencil.Text.Blank

/-!
# Reading numbers

Decimal texts are read as the nearest double. The numbers of the expression
language and of data files have a fixed form that their scanners check first.
Texts that are compared with numbers may also carry white space around the
number, a sign, underscores between digits, digits of any script, and the names
of infinity and of the value that is not a number.
-/

namespace Stencil
namespace Decimal

/--
The double nearest to a decimal. An exponent far outside the range of doubles
settles the result without a computation.
-/
def toBinary (negative : Bool) (d : Decimal) : Binary64 :=
  if d.coefficient == 0 then .zero negative
  else if 400 < d.pointAt then .infinity negative
  else if d.pointAt < -400 then .zero negative
  else
    .ofUnits negative (d.coefficient * Binary64.one * Nat.pow 10 d.exponent.toNat)
      (Nat.pow 10 (-d.exponent).toNat)

end Decimal

namespace NumberText

/-! # Parts of a number -/

structure Parts where
  whole : List Nat
  fraction : List Nat
  exponent : Int

def Parts.toBinary (parts : Parts) (negative : Bool) : Binary64 :=
  Decimal.toBinary negative
    ⟨Text.numeral (parts.whole ++ parts.fraction),
      parts.exponent - parts.fraction.length⟩

def digits : List Char → List Nat × List Char
  | [] => ([], [])
  | c :: rest =>
      match Text.digitValue? c with
      | some d => (d :: (digits rest).1, (digits rest).2)
      | none => ([], c :: rest)

def sign : List Char → Bool × List Char
  | '-' :: rest => (true, rest)
  | '+' :: rest => (false, rest)
  | rest => (false, rest)

def exponent? : List Char → Option Int
  | [] => some 0
  | c :: rest =>
      if c == 'e' || c == 'E' then
        match digits (sign rest).2 with
        | (d :: ds, []) =>
            let n : Int := Text.numeral (d :: ds)
            some (if (sign rest).1 then -n else n)
        | _ => none
      else none

def parts? (cs : List Char) : Option Parts :=
  let (whole, rest) := digits cs
  let (fraction, rest) :=
    match rest with
    | '.' :: rest => digits rest
    | rest => ([], rest)
  if whole.isEmpty && fraction.isEmpty then none
  else (exponent? rest).map fun e => ⟨whole, fraction, e⟩

/-! # Free number texts -/

/-- Digits and blanks of any script as the ASCII ones; other letters as a question mark. -/
def plainChar (c : Char) : Char :=
  if c.toNat < 127 then c
  else if Text.isBlank c then ' '
  else
    match Text.digitValue? c with
    | some d => Char.ofNat (48 + d)
    | none => '?'

def isPlainBlank (c : Char) : Bool :=
  c.toNat == 32 || (9 ≤ c.toNat && c.toNat ≤ 13)

def trimPlain (cs : List Char) : List Char :=
  ((cs.dropWhile isPlainBlank).reverse.dropWhile isPlainBlank).reverse

/-- Removes underscores, each of which must stand between two digits. -/
def dropUnderscores? (afterDigit : Bool) : List Char → Option (List Char)
  | [] => some []
  | '_' :: rest =>
      match rest with
      | next :: _ =>
          if afterDigit && next.isDigit then dropUnderscores? false rest else none
      | [] => none
  | c :: rest => (dropUnderscores? c.isDigit rest).map (c :: ·)

def signed? (cs : List Char) : Option Binary64 :=
  let (negative, rest) := sign cs
  let name := rest.map Char.toLower
  if name == "inf".toList || name == "infinity".toList then some (.infinity negative)
  else if name == "nan".toList then some .undefinedResult
  else (parts? rest).map (·.toBinary negative)

/-- Reads a text as a number wherever one is meant. -/
def float? (s : String) : Option Binary64 :=
  (dropUnderscores? false (trimPlain (s.toList.map plainChar))).bind signed?

/-! # Numbers of a fixed form -/

def toBinary (cs : List Char) : Binary64 :=
  match parts? cs with
  | some parts => parts.toBinary false
  | none => .undefinedResult

end NumberText
end Stencil
