import Stencil.Expression.Token

/-!
# String literals

A string literal stands between two equal quotes. A backslash gives the next
character another meaning, or takes its meaning away.
-/

namespace Stencil

def hexValue? (c : Char) : Option Nat :=
  if c.isDigit then some (c.toNat - 48)
  else if 'a' ≤ c && c ≤ 'f' then some (c.toNat - 87)
  else if 'A' ≤ c && c ≤ 'F' then some (c.toNat - 55)
  else none

def hexQuad? (a b c d : Char) : Option Nat := do
  let a ← hexValue? a
  let b ← hexValue? b
  let c ← hexValue? c
  let d ← hexValue? d
  return ((a * 16 + b) * 16 + c) * 16 + d

def escapedChar (c : Char) : Char :=
  match c with
  | 'n' => '\n'
  | 't' => '\t'
  | 'r' => '\r'
  | 'b' => Char.ofNat 8
  | 'f' => Char.ofNat 12
  | 'v' => Char.ofNat 11
  | '0' => Char.ofNat 0
  | other => other

def unescape : List Char → List CodePoint
  | [] => []
  | '\\' :: 'u' :: a :: b :: c :: d :: rest =>
      match hexQuad? a b c d with
      | some code => .ofCode code :: unescape rest
      | none => 'u' :: unescape (a :: b :: c :: d :: rest)
  | '\\' :: c :: rest => escapedChar c :: unescape rest
  | c :: rest => c :: unescape rest

/-- The text that a string literal, quotes included, denotes. -/
def unquote (literal : String) : Text :=
  ⟨unescape ((literal.toList.drop 1).dropLast)⟩

end Stencil
