import Stencil.Yaml.Scalar

/-!
# Scalars and collections in flow style

Flow style writes lists between square brackets and mappings between braces, as JSON
does. Each function reads one phrase from the front of a text and returns it with what
is left, or nothing if the text is malformed.
-/

namespace Stencil
namespace Yaml

def isBreakOrBlank (c : Char) : Bool :=
  c == ' ' || c == '\n' || c == '\t'

/-! # Quoted scalars -/

def escaped? (c : Char) : Option Char :=
  match c with
  | '0' => some (Char.ofNat 0)
  | 'a' => some (Char.ofNat 7)
  | 'b' => some (Char.ofNat 8)
  | 't' => some '\t'
  | '\t' => some '\t'
  | 'n' => some '\n'
  | 'v' => some (Char.ofNat 11)
  | 'f' => some (Char.ofNat 12)
  | 'r' => some '\r'
  | 'e' => some (Char.ofNat 27)
  | ' ' => some ' '
  | '"' => some '"'
  | '\\' => some '\\'
  | '/' => some '/'
  | 'N' => some (Char.ofNat 0x85)
  | '_' => some (Char.ofNat 0xA0)
  | 'L' => some (Char.ofNat 0x2028)
  | 'P' => some (Char.ofNat 0x2029)
  | _ => none

def escapeWidth? (c : Char) : Option Nat :=
  match c with
  | 'x' => some 2
  | 'u' => some 4
  | 'U' => some 8
  | _ => none

def consPoint (p : CodePoint) : Option (Text × List Char) → Option (Text × List Char)
  | some (text, rest) => some (⟨p :: text.points⟩, rest)
  | none => none

/--
Reads a text after its opening double quote. The digits of an escape are collected
one by one: `left` of them are still to come.
-/
def doubleQuoted (code left : Nat) : List Char → Option (Text × List Char)
  | [] => none
  | c :: rest =>
      match left with
      | more + 1 =>
          if isDigitOf 16 c then
            let next := code * 16 + digitsValue 16 [c]
            if more == 0 then consPoint (.ofCode next) (doubleQuoted 0 0 rest)
            else doubleQuoted next more rest
          else none
      | 0 =>
          if c == '"' then some ("", rest)
          else if c == '\n' then none
          else if c == '\\' then
            match rest with
            | [] => none
            | e :: after =>
                match escapeWidth? e with
                | some width => doubleQuoted 0 width after
                | none =>
                    match escaped? e with
                    | some character => consPoint character (doubleQuoted 0 0 after)
                    | none => none
          else consPoint c (doubleQuoted 0 0 rest)

/-- Reads a text after its opening single quote, which is doubled inside. -/
def singleQuoted : List Char → Option (Text × List Char)
  | [] => none
  | '\'' :: '\'' :: rest => consPoint '\'' (singleQuoted rest)
  | '\'' :: rest => some ("", rest)
  | '\n' :: _ => none
  | c :: rest => consPoint c (singleQuoted rest)

def quoted? : List Char → Option (Text × List Char)
  | '"' :: rest => doubleQuoted 0 0 rest
  | '\'' :: rest => singleQuoted rest
  | _ => none

def isQuote (c : Char) : Bool :=
  c == '"' || c == '\''

/-! # Plain scalars -/

def indicators : List Char :=
  [',', '[', ']', '\x7b', '\x7d', '#', '&', '*', '!', '|', '>', '\'', '"', '%', '@', '\x60']

def startsPlain (inFlow : Bool) : List Char → Bool
  | [] => false
  | c :: rest =>
      let alone := (rest.head?.map isBreakOrBlank).getD true
      if c == '-' then !alone
      else if c == '?' || c == ':' then !inFlow && !alone
      else !indicators.contains c && !isBreakOrBlank c

def isFlowMark (c : Char) : Bool :=
  c == ',' || c == '[' || c == ']' || c == '\x7b' || c == '\x7d' || c == '?'

def flowPlainLength (afterBlank : Bool) : List Char → Nat
  | [] => 0
  | c :: rest =>
      let next := rest.head?
      if c == '\n' || c == '\t' || isFlowMark c then 0
      else if c == ':' && (next.map fun d => isBreakOrBlank d || isFlowMark d).getD true then 0
      else if c == '#' && afterBlank then 0
      else flowPlainLength (c == ' ') rest + 1

def trimRight (cs : List Char) : List Char :=
  (cs.reverse.dropWhile (· == ' ')).reverse

/-! # Collections -/

def skipFlow (inComment afterBlank : Bool) : List Char → List Char
  | [] => []
  | c :: rest =>
      if c == '\n' then skipFlow false true rest
      else if inComment then skipFlow true true rest
      else if c == ' ' then skipFlow false true rest
      else if c == '#' && afterBlank then skipFlow true true rest
      else c :: rest

def skip (cs : List Char) : List Char := skipFlow false false cs

mutual

/-- Reads a value. The budget is at least the number of characters. -/
def flowValue : Nat → List Char → Option (Value × List Char)
  | 0, _ => none
  | budget + 1, cs =>
      match cs with
      | '[' :: rest => do
          let (items, after) ← flowItems budget (skip rest)
          return (.list items, after)
      | '\x7b' :: rest => do
          let (entries, after) ← flowEntries budget (skip rest)
          return (.map (Entries.ofPairs entries), after)
      | c :: rest =>
          if isQuote c then
            (quoted? (c :: rest)).map fun (text, after) => (.str text, after)
          else if startsPlain true (c :: rest) then
            let length := flowPlainLength false (c :: rest)
            some (plainValue (trimRight ((c :: rest).take length)), (c :: rest).drop length)
          else none
      | [] => none

def flowItems : Nat → List Char → Option (List Value × List Char)
  | 0, _ => none
  | _ + 1, ']' :: rest => some ([], rest)
  | budget + 1, cs => do
      let (first, after) ← flowItem budget cs
      match skip after with
      | ',' :: rest => do
          let (others, last) ← flowItems budget (skip rest)
          return (first :: others, last)
      | ']' :: rest => return ([first], rest)
      | _ => none

/-- Reads an item; a single entry stands for a mapping. -/
def flowItem : Nat → List Char → Option (Value × List Char)
  | 0, _ => none
  | budget + 1, cs => do
      let (key, after) ← flowValue budget cs
      match skip after with
      | ':' :: _ => do
          let (value, last) ← flowEntryValue budget (skip after)
          let name ← key.key?
          return (.map [(name, value)], last)
      | _ => return (key, after)

def flowEntries : Nat → List Char → Option (List (Key × Value) × List Char)
  | 0, _ => none
  | _ + 1, '\x7d' :: rest => some ([], rest)
  | budget + 1, cs => do
      let (key, after) ← flowValue budget cs
      let name ← key.key?
      let (value, last) ← flowEntryValue budget (skip after)
      match skip last with
      | ',' :: rest => do
          let (others, beyond) ← flowEntries budget (skip rest)
          return ((name, value) :: others, beyond)
      | '\x7d' :: rest => return ([(name, value)], rest)
      | _ => none

/-- Reads a colon and the value after it; without a colon the value is null. -/
def flowEntryValue : Nat → List Char → Option (Value × List Char)
  | 0, _ => none
  | budget + 1, ':' :: rest =>
      match skip rest with
      | ',' :: after => some (.null, ',' :: after)
      | '\x7d' :: after => some (.null, '\x7d' :: after)
      | ']' :: after => some (.null, ']' :: after)
      | cs => flowValue budget cs
  | _ + 1, cs => some (.null, cs)

end

def startsFlow (cs : List Char) : Bool :=
  cs.head? == some '[' || cs.head? == some '\x7b'

def flow? (cs : List Char) : Option (Value × List Char) :=
  flowValue (2 * cs.length + 2) cs

end Yaml
end Stencil
