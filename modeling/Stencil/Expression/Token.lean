import Stencil.Text.Blank
import Stencil.Text.Numeral
import Stencil.Text.Quoted

/-!
# Tokens of the expression language

An expression is a row of numbers, string literals, names and operators with
white space between them. The scanner reads the text from left to right. At each
place the first kind that fits is taken, at its full length.

Positions count characters from the start of the text.
-/

namespace Stencil

inductive TokenKind where
  | number
  | string
  | name
  | operator
  /-- The end of the text; the last token of every row, and the only one of its kind. -/
  | stop
deriving DecidableEq, Repr

structure Token where
  kind : TokenKind
  text : String
  position : Nat
deriving DecidableEq, Repr

/-! # Malformed expressions -/

inductive SyntaxError where
  | strayCharacter (c : Char) (position : Nat)
  | empty
  | unexpected (found : Token)
  | expected (operator : String) (found : Token)
  | noPropertyName (position : Nat)
  | noObjectKey (position : Nat)
  | noColon (key : Text)
  /-- The reader stopped before it had an answer. No text leads here. -/
  | unfinished
deriving DecidableEq, Repr

def Token.shown (token : Token) : String :=
  Text.quote (if token.text.isEmpty then "end of expression" else token.text)

def SyntaxError.message : SyntaxError → String
  | strayCharacter c position =>
      "Unexpected character " ++ Text.quote (String.singleton c) ++ " at " ++ toString position
  | empty => "Empty expression"
  | unexpected found =>
      "Unexpected " ++ found.shown ++ " at " ++ toString found.position
  | expected operator found =>
      "Expected " ++ Text.quote operator ++ " at " ++ toString found.position ++
        ", found " ++ found.shown
  | noPropertyName position => "Expected property name at " ++ toString position
  | noObjectKey position => "Expected object key at " ++ toString position
  | noColon key => "Expected ':' after key " ++ Text.quote key
  | unfinished => "Unfinished expression"

/-! # Names -/

def isNameStart (c : Char) : Bool :=
  c.isAlpha || c == '_' || c == '$'

def isNameChar (c : Char) : Bool :=
  c.isAlphanum || c == '_' || c == '$'

def nameLength : List Char → Nat
  | c :: rest => if isNameStart c then 1 + (rest.takeWhile isNameChar).length else 0
  | [] => 0

/-- Whether a text as a whole is one name. -/
def isName (cs : List Char) : Bool :=
  match cs with
  | c :: rest => isNameStart c && rest.all isNameChar
  | [] => false

/-! # Numbers -/

def digitLength (cs : List Char) : Nat :=
  (cs.takeWhile Text.isDigit).length

def fractionLength : List Char → Nat
  | '.' :: rest => if digitLength rest == 0 then 0 else 1 + digitLength rest
  | _ => 0

def exponentLength : List Char → Nat
  | c :: rest =>
      if c == 'e' || c == 'E' then
        let sign :=
          match rest with
          | s :: _ => if s == '+' || s == '-' then 1 else 0
          | [] => 0
        let digits := digitLength (rest.drop sign)
        if digits == 0 then 0 else 1 + sign + digits
      else 0
  | [] => 0

def numberLength (cs : List Char) : Nat :=
  let whole := digitLength cs
  let mantissa := whole + fractionLength (cs.drop whole)
  if mantissa == 0 then 0 else mantissa + exponentLength (cs.drop mantissa)

/-! # String literals -/

/--
How many characters of a text lie before the quote that closes a string literal
whose opening quote has been read. A backslash takes the next character with it.
-/
def bodyLength? (mark : Char) : List Char → Option Nat
  | [] => none
  | c :: rest =>
      if c == mark then some 0
      else if c == '\\' then
        match rest with
        | _ :: after => (bodyLength? mark after).map (· + 2)
        | [] => none
      else (bodyLength? mark rest).map (· + 1)

def stringLength : List Char → Nat
  | c :: rest =>
      if c == '"' || c == '\'' then
        match bodyLength? c rest with
        | some n => n + 2
        | none => 0
      else 0
  | [] => 0

/-! # Operators -/

def longOperators : List (List Char) :=
  ["===", "!==", "==", "!=", "<=", ">=", "&&", "||"].map String.toList

def shortOperators : List Char :=
  "-+*/%<>!?:.,()[]\x7b\x7d".toList

def operatorLength (cs : List Char) : Nat :=
  match longOperators.find? (·.isPrefixOf cs) with
  | some op => op.length
  | none =>
      match cs with
      | c :: _ => if shortOperators.contains c then 1 else 0
      | [] => 0

/-! # The scanner -/

/-- What stands at the start of a text, and how long it is; no kind means white space. -/
def lexeme? (cs : List Char) : Option (Option TokenKind × Nat) :=
  let blanks := (cs.takeWhile Text.isBlank).length
  if blanks != 0 then some (none, blanks)
  else if numberLength cs != 0 then some (some .number, numberLength cs)
  else if stringLength cs != 0 then some (some .string, stringLength cs)
  else if nameLength cs != 0 then some (some .name, nameLength cs)
  else if operatorLength cs != 0 then some (some .operator, operatorLength cs)
  else none

/--
The tokens of a text that starts at `position`. The first `skip` characters
belong to the token before.
-/
def tokensFrom : Nat → Nat → List Char → Except SyntaxError (List Token)
  | position, _, [] => .ok [⟨.stop, "", position⟩]
  | position, skip + 1, _ :: rest => tokensFrom (position + 1) skip rest
  | position, 0, c :: rest =>
      match lexeme? (c :: rest) with
      | none => .error (.strayCharacter c position)
      | some (none, length) => tokensFrom (position + 1) (length - 1) rest
      | some (some kind, length) =>
          match tokensFrom (position + 1) (length - 1) rest with
          | .error e => .error e
          | .ok tokens =>
              .ok (⟨kind, String.ofList ((c :: rest).take length), position⟩ :: tokens)

/-- The tokens of a text, with the stop token at the end. -/
def tokenize (source : String) : Except SyntaxError (List Token) :=
  tokensFrom 0 0 source.toList

end Stencil
