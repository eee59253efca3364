import Stencil.Failure
import Stencil.Json.Document
import Stencil.Text.Quoted

/-!
# Writing JSON

A style fixes what stands between the parts of a document. Views write compact
or indented JSON in which every code point but the controls stands for itself;
log lines have a blank after each comma and colon and are plain ASCII.
-/

namespace Stencil

structure JsonStyle where
  /-- What separates items when they stand on one line. -/
  comma : Text
  colon : Text
  /-- The depth of an indentation step; without one everything stands on one line. -/
  indent : Option Nat
  asciiOnly : Bool
  /-- Whether infinities and the value that is not a number have a text. -/
  nonFinite : Bool

namespace JsonStyle

def compact : JsonStyle where
  comma := ","
  colon := ":"
  indent := none
  asciiOnly := false
  nonFinite := false

def indented (step : Nat) : JsonStyle where
  comma := ","
  colon := ": "
  indent := some step
  asciiOnly := false
  nonFinite := false

def logLine : JsonStyle where
  comma := ", "
  colon := ": "
  indent := none
  asciiOnly := true
  nonFinite := true

end JsonStyle

namespace Json

/-! # Texts -/

def unicodeEscape (code : Nat) : List Char :=
  ['\\', 'u'] ++ Text.hexDigits 4 code

/-- An escape for each half of a character beyond the first plane, else one escape. -/
def asciiEscape (code : Nat) : List Char :=
  if code < 0x10000 then unicodeEscape code
  else
    unicodeEscape (0xD800 + (code - 0x10000) / 0x400) ++
      unicodeEscape (0xDC00 + (code - 0x10000) % 0x400)

def escape? (asciiOnly : Bool) (p : CodePoint) : Option (List Char) :=
  if p == '"' then some ['\\', '"']
  else if p == '\\' then some ['\\', '\\']
  else if p == '\n' then some ['\\', 'n']
  else if p == '\r' then some ['\\', 'r']
  else if p == '\t' then some ['\\', 't']
  else if p.code == 8 then some ['\\', 'b']
  else if p.code == 12 then some ['\\', 'f']
  else if p.code < 32 || (asciiOnly && 126 < p.code) then some (asciiEscape p.code)
  else none

def writePoint (asciiOnly : Bool) (p : CodePoint) : List CodePoint :=
  match escape? asciiOnly p with
  | some cs => cs.map .char
  | none => [p]

def writeText (asciiOnly : Bool) (t : Text) : Text :=
  "\"" ++ ⟨t.points.flatMap (writePoint asciiOnly)⟩ ++ "\""

/-! # Scalars -/

def boolText (b : Bool) : Text :=
  if b then "true" else "false"

def intText (n : Int) : Text :=
  Text.ofChars (Text.decimalInt n)

def nonFiniteText : Binary64 → Text
  | .infinity true => "-Infinity"
  | .infinity false => "Infinity"
  | _ => "NaN"

def floatText (style : JsonStyle) (x : Binary64) : Except Failure Text :=
  if x.isFinite then .ok x.dataText
  else if style.nonFinite then .ok (nonFiniteText x)
  else .error .unwritableNumber

/-! # Keys -/

def keyText (style : JsonStyle) : Key → Except Failure Text
  | .str s => .ok s
  | .int n => .ok (intText n)
  | .float x => floatText style x
  | .bool b => .ok (boolText b)
  | .null => .ok "null"
  | .undefined => .error .unwritableKey
  | .callable _ => .error .unwritableKey

/-! # Documents -/

def lineBreak (style : JsonStyle) (depth : Nat) : Text :=
  match style.indent with
  | some step => Text.ofChars ('\n' :: List.replicate (step * depth) ' ')
  | none => ""

def separator (style : JsonStyle) (depth : Nat) : Text :=
  style.comma ++ lineBreak style depth

mutual

def write (style : JsonStyle) (depth : Nat) : Document → Except Failure Text
  | .null => .ok "null"
  | .bool b => .ok (boolText b)
  | .int n => .ok (intText n)
  | .float x => floatText style x
  | .str s => .ok (writeText style.asciiOnly s)
  | .list [] => .ok "[]"
  | .list (first :: rest) => do
      let head ← write style (depth + 1) first
      let tail ← writeItems style (depth + 1) rest
      let closing := lineBreak style depth ++ "]"
      return "[" ++ (lineBreak style (depth + 1) ++ (head ++ (tail ++ closing)))
  | .object [] => .ok "\x7b\x7d"
  | .object ((key, first) :: rest) => do
      let name ← keyText style key
      let head ← write style (depth + 1) first
      let tail ← writeEntries style (depth + 1) rest
      return "\x7b" ++ (lineBreak style (depth + 1) ++ (writeText style.asciiOnly name ++
        (style.colon ++ (head ++ (tail ++ (lineBreak style depth ++ "\x7d"))))))

def writeItems (style : JsonStyle) (depth : Nat) : List Document → Except Failure Text
  | [] => .ok ""
  | d :: rest => do
      let head ← write style depth d
      let tail ← writeItems style depth rest
      return separator style depth ++ (head ++ tail)

def writeEntries (style : JsonStyle) (depth : Nat) :
    List (Key × Document) → Except Failure Text
  | [] => .ok ""
  | (key, d) :: rest => do
      let name ← keyText style key
      let head ← write style depth d
      let tail ← writeEntries style depth rest
      return separator style depth ++ (writeText style.asciiOnly name ++
        (style.colon ++ (head ++ tail)))

end

/-- The JSON text of a document. -/
def text (style : JsonStyle) (d : Document) : Except Failure Text :=
  write style 0 d

end Json
end Stencil
