import Stencil.Expression.Literal
import Stencil.Json.Document
import Stencil.Number.Reading

/-!
# Reading JSON

A recursive descent over the code points. Each function reads one phrase from the
front and returns it with what is left, or nothing if the text is malformed.
Besides the JSON grammar it knows the names of the infinities and of the value
that is not a number.

The budget goes down with every phrase; a text has more code points than its
phrases nest, so the budget never runs out before the text does.
-/

namespace Stencil
namespace Json

def isGap (p : CodePoint) : Bool :=
  p == ' ' || p == '\t' || p == '\n' || p == '\r'

def skipGap (points : List CodePoint) : List CodePoint :=
  points.dropWhile isGap

def dropWord? (word : Text) (points : List CodePoint) : Option (List CodePoint) :=
  if word.points.isPrefixOf points then some (points.drop word.length) else none

/-! # Texts -/

def simpleEscape? (c : Char) : Option Char :=
  match c with
  | '"' => some '"'
  | '\\' => some '\\'
  | '/' => some '/'
  | 'b' => some (Char.ofNat 8)
  | 'f' => some (Char.ofNat 12)
  | 'n' => some '\n'
  | 'r' => some '\r'
  | 't' => some '\t'
  | _ => none

def escapedPoint? : List CodePoint → Option (CodePoint × List CodePoint)
  | .char a :: .char b :: .char c :: .char d :: rest =>
      (hexQuad? a b c d).map fun code => (.ofCode code, rest)
  | _ => none

/-- The character that a code point makes with an escape that follows, if they are a pair. -/
def pairedEscape? (first : CodePoint) : List CodePoint → Option Char
  | .char '\\' :: .char 'u' :: rest =>
      (escapedPoint? rest).bind fun second => first.paired? second.1
  | _ => none

def pushPoint (p : CodePoint) (r : List CodePoint × List CodePoint) :
    List CodePoint × List CodePoint :=
  (p :: r.1, r.2)

/--
The code points of a text up to its closing quote. The first `skip` of them belong to
an escape that has been read.
-/
def readText : Nat → List CodePoint → Option (List CodePoint × List CodePoint)
  | _, [] => none
  | skip + 1, _ :: rest => readText skip rest
  | 0, .char '"' :: rest => some ([], rest)
  | 0, .char '\\' :: rest =>
      match rest with
      | .char 'u' :: after =>
          match escapedPoint? after with
          | none => none
          | some (p, beyond) =>
              match pairedEscape? p beyond with
              | some c => (readText 11 rest).map (pushPoint c)
              | none => (readText 5 rest).map (pushPoint p)
      | .char c :: _ =>
          match simpleEscape? c with
          | none => none
          | some e => (readText 1 rest).map (pushPoint e)
      | _ => none
  | 0, p :: rest => if p.code < 32 then none else (readText 0 rest).map (pushPoint p)

/-! # Numbers -/

def leading (test : Char → Bool) : List CodePoint → List Char
  | .char c :: rest => if test c then c :: leading test rest else []
  | _ => []

def asciiDigits (points : List CodePoint) : List Char :=
  leading Char.isDigit points

def fractionPart : List CodePoint → List Char
  | .char '.' :: rest => if (asciiDigits rest).isEmpty then [] else '.' :: asciiDigits rest
  | _ => []

def exponentPart : List CodePoint → List Char
  | .char c :: rest =>
      if c == 'e' || c == 'E' then
        let sign := leading (fun s => s == '+' || s == '-') rest
        let digits := asciiDigits (rest.drop sign.length)
        if sign.length ≤ 1 && !digits.isEmpty then c :: (sign ++ digits) else []
      else []
  | _ => []

/-- A number without its sign. No digit may follow a leading zero. -/
def readMagnitude (negative : Bool) (points : List CodePoint) :
    Option (Document × List CodePoint) :=
  let whole :=
    match points with
    | .char '0' :: _ => ['0']
    | points => asciiDigits points
  if whole.isEmpty then none
  else
    let rest := points.drop whole.length
    let fraction := fractionPart rest
    let exponent := exponentPart (rest.drop fraction.length)
    let beyond := (rest.drop fraction.length).drop exponent.length
    if fraction.isEmpty && exponent.isEmpty then
      let n : Int := Text.numeral (whole.filterMap Text.digitValue?)
      some (.int (if negative then -n else n), beyond)
    else
      match NumberText.parts? (whole ++ fraction ++ exponent) with
      | some parts => some (.float (parts.toBinary negative), beyond)
      | none => none

def readNumber : List CodePoint → Option (Document × List CodePoint)
  | .char '-' :: rest =>
      match dropWord? "Infinity" rest with
      | some beyond => some (.float (.infinity true), beyond)
      | none => readMagnitude true rest
  | points => readMagnitude false points

def words : List (String × Document) :=
  [ ("null", .null), ("true", .bool true), ("false", .bool false),
    ("NaN", .float .undefinedResult), ("Infinity", .float (.infinity false)) ]

def readWord? (points : List CodePoint) : Option (Document × List CodePoint) :=
  words.findSome? fun word => (dropWord? word.1 points).map fun rest => (word.2, rest)

/-! # Documents -/

mutual

def readValue : Nat → List CodePoint → Option (Document × List CodePoint)
  | 0, _ => none
  | _ + 1, [] => none
  | budget + 1, p :: rest =>
      if p == '"' then (readText 0 rest).map fun r => (.str ⟨r.1⟩, r.2)
      else if p == '[' then
        match skipGap rest with
        | .char ']' :: beyond => some (.list [], beyond)
        | inner => (readItems budget inner).map fun r => (.list r.1, r.2)
      else if p == '\x7b' then
        match skipGap rest with
        | .char '\x7d' :: beyond => some (.object [], beyond)
        | inner => (readMembers budget inner).map fun r => (.object r.1, r.2)
      else
        match readWord? (p :: rest) with
        | some found => some found
        | none => readNumber (p :: rest)

def readItems : Nat → List CodePoint → Option (List Document × List CodePoint)
  | 0, _ => none
  | budget + 1, points =>
      match readValue budget points with
      | none => none
      | some (first, rest) =>
          match skipGap rest with
          | .char ']' :: beyond => some ([first], beyond)
          | .char ',' :: more =>
              (readItems budget (skipGap more)).map fun r => (first :: r.1, r.2)
          | _ => none

def readMembers : Nat → List CodePoint → Option (List (Key × Document) × List CodePoint)
  | 0, _ => none
  | budget + 1, points =>
      match readMember budget points with
      | none => none
      | some (first, rest) =>
          match skipGap rest with
          | .char '\x7d' :: beyond => some ([first], beyond)
          | .char ',' :: more =>
              (readMembers budget (skipGap more)).map fun r => (first :: r.1, r.2)
          | _ => none

def readMember : Nat → List CodePoint → Option ((Key × Document) × List CodePoint)
  | 0, _ => none
  | budget + 1, points =>
      match points with
      | .char '"' :: rest =>
          match readText 0 rest with
          | none => none
          | some (name, rest) =>
              match skipGap rest with
              | .char ':' :: rest =>
                  (readValue budget (skipGap rest)).map fun r =>
                    ((.str ⟨name⟩, r.1), r.2)
              | _ => none
      | _ => none

end

/-- Reads a text, all of it, as one document. -/
def read? (t : Text) : Option Document :=
  match readValue (2 * t.length + 2) (skipGap t.points) with
  | some (d, rest) => if (skipGap rest).isEmpty then some d else none
  | none => none

end Json
end Stencil
