import Stencil.Yaml.Flow

/-!
# Block style

A settings file is written in block style: an entry or an item a line, and what
belongs to it deeper on the lines below. Values on one line may be scalars or
collections in flow style; a file may also be a single value in flow style. This
covers what settings need of YAML; other forms are refused as malformed.
-/

namespace Stencil
namespace Yaml

/-- A line that says something, without the blanks before it. -/
structure Line where
  indent : Nat
  text : List Char
deriving DecidableEq, Repr

/-! # Lines -/

def isReadable (c : Char) : Bool :=
  let n := c.toNat
  n == 9 || n == 10 || n == 13 || (0x20 ≤ n && n ≤ 0x7E) || n == 0x85 ||
    (0xA0 ≤ n && n ≤ 0xD7FF) || (0xE000 ≤ n && n ≤ 0xFFFD) || 0x10000 ≤ n

def Line.ofChars (cs : List Char) : Line :=
  let text := cs.dropWhile (· == ' ')
  ⟨cs.length - text.length, text⟩

def Line.isSilent (line : Line) : Bool :=
  line.text.isEmpty || line.text.head? == some '#'

def isStartMark (line : Line) : Bool :=
  line.indent == 0 && trimRight line.text == ['-', '-', '-']

/-- The lines of a file that say something. -/
def linesOf (cs : List Char) : List Line :=
  let lines := ((cs.splitOnP (· == '\n')).map Line.ofChars).filter fun line => !line.isSilent
  match lines with
  | first :: rest => if isStartMark first then rest else first :: rest
  | [] => []

/-! # Values on one line -/

def isLineEnd (cs : List Char) : Bool :=
  let rest := cs.dropWhile (· == ' ')
  rest.isEmpty || (rest.head? == some '#' && rest.length < cs.length)

def plainLength (afterBlank : Bool) : List Char → Nat
  | [] => 0
  | c :: rest =>
      if c == '#' && afterBlank then 0 else plainLength (c == ' ') rest + 1

def hasKeyMark : List Char → Bool
  | [] => false
  | [c] => c == ':'
  | c :: d :: rest => (c == ':' && isBreakOrBlank d) || hasKeyMark (d :: rest)

def plainLine? (cs : List Char) : Option Value :=
  let text := trimRight (cs.take (plainLength false cs))
  if startsPlain false cs && !hasKeyMark text && !text.contains '\t' then some (plainValue text)
  else none

def inline? (cs : List Char) : Option Value :=
  if startsFlow cs then
    match flow? cs with
    | some (value, rest) => if isLineEnd rest then some value else none
    | none => none
  else if (cs.head?.map isQuote).getD false then
    match quoted? cs with
    | some (text, rest) => if isLineEnd rest then some (.str text) else none
    | none => none
  else plainLine? cs

/-! # Entries and items -/

def afterColon? : List Char → Option (List Char)
  | [':'] => some []
  | ':' :: c :: rest =>
      if c == ' ' then some (rest.dropWhile (· == ' ')) else none
  | _ => none

def plainKey? : List Char → Option (List Char × List Char)
  | [] => none
  | c :: rest =>
      match afterColon? (c :: rest) with
      | some after => some ([], after)
      | none =>
          if c == ' ' && rest.head? == some '#' then none
          else (plainKey? rest).map fun (key, after) => (c :: key, after)

/-- The key that a line begins with, and the rest of the line. -/
def key? (cs : List Char) : Option (Key × List Char) :=
  if (cs.head?.map isQuote).getD false then do
    let (text, rest) ← quoted? cs
    let after ← afterColon? (rest.dropWhile (· == ' '))
    return (.str text, after)
  else if startsPlain false cs then do
    let (text, after) ← plainKey? cs
    let key ← (plainValue (trimRight text)).key?
    return (key, after)
  else none

def item? : List Char → Option (Nat × List Char)
  | ['-'] => some (1, [])
  | '-' :: ' ' :: rest =>
      let text := rest.dropWhile (· == ' ')
      some (2 + (rest.length - text.length), text)
  | _ => none

def isItem (line : Line) : Bool :=
  (item? line.text).isSome

def saysNothing (cs : List Char) : Bool :=
  cs.isEmpty || cs.head? == some '#'

/-! # Blocks -/

mutual

/-- Reads the value of a block whose lines stand at a depth or deeper. -/
def block : Nat → Nat → List Line → Option (Value × List Line)
  | 0, _, _ => none
  | _ + 1, _, [] => some (.null, [])
  | budget + 1, depth, line :: rest =>
      if line.indent < depth then some (.null, line :: rest)
      else if isItem line then do
        let (items, after) ← blockItems budget line.indent (line :: rest)
        return (.list items, after)
      else if (key? line.text).isSome then do
        let (entries, after) ← blockEntries budget line.indent (line :: rest)
        return (.map (Entries.ofPairs entries), after)
      else (inline? line.text).map fun value => (value, rest)

def blockItems : Nat → Nat → List Line → Option (List Value × List Line)
  | 0, _, _ => none
  | _ + 1, _, [] => some ([], [])
  | budget + 1, depth, line :: rest =>
      if line.indent != depth then some ([], line :: rest)
      else
        match item? line.text with
        | none => some ([], line :: rest)
        | some (width, text) => do
            let inner := if saysNothing text then rest else ⟨depth + width, text⟩ :: rest
            let (first, after) ← block budget (depth + 1) inner
            let (others, last) ← blockItems budget depth after
            return (first :: others, last)

def blockEntries : Nat → Nat → List Line → Option (List (Key × Value) × List Line)
  | 0, _, _ => none
  | _ + 1, _, [] => some ([], [])
  | budget + 1, depth, line :: rest =>
      if line.indent != depth then some ([], line :: rest)
      else
        match key? line.text with
        | none => none
        | some (key, text) => do
            let (value, after) ← entryValue budget depth text rest
            let (others, last) ← blockEntries budget depth after
            return ((key, value) :: others, last)

/-- Reads the value of an entry: on its line, or on the lines below. -/
def entryValue : Nat → Nat → List Char → List Line → Option (Value × List Line)
  | 0, _, _, _ => none
  | budget + 1, depth, text, rest =>
      if !saysNothing text then (inline? text).map fun value => (value, rest)
      else
        match rest with
        | [] => some (.null, [])
        | next :: more =>
            if next.indent == depth && isItem next then do
              let (items, after) ← blockItems budget depth (next :: more)
              return (.list items, after)
            else block budget (depth + 1) (next :: more)

end

/-! # Files -/

def isWellSpaced (cs : List Char) : Bool :=
  cs.all isReadable &&
    (cs.splitOnP (· == '\n')).all fun line => (line.dropWhile (· == ' ')).head? != some '\t'

def flowFile? (cs : List Char) : Option Value :=
  match flow? cs with
  | some (value, rest) => if (skip rest).isEmpty then some value else none
  | none => none

def byteOrderMark : Char := Char.ofNat 0xFEFF

def withoutMark (cs : List Char) : List Char :=
  if cs.head? == some byteOrderMark then cs.drop 1 else cs

/-- The value that the text of a file denotes, null if it says nothing. -/
def value? (text : String) : Option Value :=
  let cs := withoutMark text.toList
  if !isWellSpaced cs then none
  else if startsFlow (skipFlow false true cs) then flowFile? (skipFlow false true cs)
  else
    let lines := linesOf cs
    match block (3 * text.length + 3) 0 lines with
    | some (value, []) => some value
    | _ => none

inductive Fault where
  | malformed
  /-- A date that is not in the calendar. -/
  | impossibleDate
deriving DecidableEq, Repr

def read (text : String) : Except Fault Value :=
  match value? text with
  | none => .error .malformed
  | some value => if hasImpossibleDate value then .error .impossibleDate else .ok value

end Yaml
end Stencil
