import Stencil.Text.Basic
import Stencil.Text.Printable

/-!
# Quoted texts

Messages quote the texts they speak about. Single quotes are used unless the
text has a single quote and no double quote. Inside, the backslash, the quote in
use and line breaks are escaped, and what cannot be shown is given by its code
point.
-/

namespace Stencil
namespace Text

def hexDigits (width : Nat) (n : Nat) : List Char :=
  let digits := Nat.toDigits 16 n
  List.replicate (width - digits.length) '0' ++ digits

def quoteMark (points : List CodePoint) : Char :=
  if points.contains '\'' && !points.contains '"' then '"' else '\''

def quoteChar (mark c : Char) : List Char :=
  if c == mark || c == '\\' then ['\\', c]
  else if c == '\n' then ['\\', 'n']
  else if c == '\r' then ['\\', 'r']
  else if c == '\t' then ['\\', 't']
  else if isPrintable c then [c]
  else if c.toNat ≤ 0xFF then ['\\', 'x'] ++ hexDigits 2 c.toNat
  else if c.toNat ≤ 0xFFFF then ['\\', 'u'] ++ hexDigits 4 c.toNat
  else ['\\', 'U'] ++ hexDigits 8 c.toNat

def quotePoint (mark : Char) : CodePoint → List Char
  | .char c => quoteChar mark c
  | p => ['\\', 'u'] ++ hexDigits 4 p.code

def quoteList (points : List CodePoint) : List Char :=
  let mark := quoteMark points
  mark :: (points.flatMap (quotePoint mark) ++ [mark])

def quote (t : Text) : String :=
  String.ofList (quoteList t.points)

end Text
end Stencil
