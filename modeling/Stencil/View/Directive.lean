import Stencil.Expression.Literal
import Stencil.View.Node

/-!
# Directives

A directive begins with an at sign. This module reads the one that stands at the
start of a text, from the character after the at sign on. It says what the
directive means and how many characters it takes, or why it is malformed. An at
sign that begins no directive is literal text.
-/

namespace Stencil

inductive StructureFault where
  | unterminated (directive : String) (closer : Char)
  | unterminatedString (directive : String)
  | mismatched (found : Char) (directive : String)
  | emptyInterpolation
  | noCondition (directive : String)
  | noCollection
  | pathNotLiteral
  | emptyPath
  | emptyIncludeData
  | noTarget
  | noAssignment
  | noSemicolon
  | noValue
  | emptyPattern
  | badArrayName (part : String)
  | badObjectEntry (part : String)
  | unclosedBlock (directive : String)
  | strayElif
  | elifAfterElse
  | strayElse
  | elseInLoop
  | secondElse
  | strayEnd
deriving DecidableEq, Repr

namespace StructureFault

def quotedChar (c : Char) : String :=
  Text.quote (String.singleton c)

def message : StructureFault → String
  | unterminated directive closer =>
      "Unterminated " ++ directive ++ " (missing " ++ quotedChar closer ++ ")"
  | unterminatedString directive => "Unterminated string in " ++ directive
  | mismatched found directive => "Mismatched " ++ quotedChar found ++ " in " ++ directive
  | emptyInterpolation => "Empty interpolation @\x7b\x7d"
  | noCondition directive => directive ++ " requires a condition"
  | noCollection => "@each requires a collection"
  | pathNotLiteral => "@include path must be a string literal"
  | emptyPath => "@include path is empty"
  | emptyIncludeData => "@include data argument is empty"
  | noTarget => "@var requires a name or a destructuring pattern"
  | noAssignment => "@var declaration is missing '='"
  | noSemicolon => "@var declaration is missing its terminating ';'"
  | noValue => "@var declaration has no value"
  | emptyPattern => "Empty destructuring pattern"
  | badArrayName part => "Invalid name " ++ Text.quote part ++ " in array pattern"
  | badObjectEntry part => "Invalid entry " ++ Text.quote part ++ " in object pattern"
  | unclosedBlock directive => "Unterminated " ++ directive ++ " (missing @end)"
  | strayElif => "@elif without a matching @if"
  | elifAfterElse => "@elif after @else"
  | strayElse => "@else without a matching @if"
  | elseInLoop => "@else is not allowed inside @each"
  | secondElse => "Duplicate @else"
  | strayEnd => "@end without a matching @if or @each"

end StructureFault

inductive Directive where
  | interpolation (expression : String)
  | shorthand (path : String)
  | declaration (pattern : Pattern) (expression : String)
  | openIf (condition : String)
  /-- The condition may be blank; whether that matters depends on the block. -/
  | elif (condition : String)
  | openEach (item index collection : String)
  | inclusion (path : Text) (data : Option String)
  | otherwise
  | close
deriving DecidableEq, Repr

/-! # Brackets -/

def closerOf? (c : Char) : Option Char :=
  match c with
  | '(' => some ')'
  | '[' => some ']'
  | '\x7b' => some '\x7d'
  | _ => none

def isCloser (c : Char) : Bool :=
  c == ')' || c == ']' || c == '\x7d'

def isQuote (c : Char) : Bool :=
  c == '"' || c == '\''

/--
How many characters lie before the bracket that closes an open one. `top` closes
the innermost open bracket and `below` the ones around it. String literals are
skipped; the first `skip` characters belong to one.
-/
def balancedLength (directive : String) :
    Char → List Char → Nat → List Char → Except StructureFault Nat
  | top, _, _, [] => .error (.unterminated directive top)
  | top, below, skip + 1, _ :: rest => (balancedLength directive top below skip rest).map (· + 1)
  | top, below, 0, c :: rest =>
      if isQuote c then
        match bodyLength? c rest with
        | some n => (balancedLength directive top below (n + 1) rest).map (· + 1)
        | none => .error (.unterminatedString directive)
      else
        match closerOf? c with
        | some closer => (balancedLength directive closer (top :: below) 0 rest).map (· + 1)
        | none =>
            if isCloser c then
              if c == top then
                match below with
                | [] => .ok 0
                | next :: others => (balancedLength directive next others 0 rest).map (· + 1)
              else .error (.mismatched c directive)
            else (balancedLength directive top below 0 rest).map (· + 1)

/--
How many characters lie before a semicolon that stands outside string literals
and brackets. `depth` counts open brackets; surplus closing ones do no harm.
-/
def statementLength? : Int → Nat → List Char → Option Nat
  | _, _, [] => none
  | depth, skip + 1, _ :: rest => (statementLength? depth skip rest).map (· + 1)
  | depth, 0, c :: rest =>
      if isQuote c then
        match bodyLength? c rest with
        | some n => (statementLength? depth (n + 1) rest).map (· + 1)
        | none => none
      else if (closerOf? c).isSome then (statementLength? (depth + 1) 0 rest).map (· + 1)
      else if isCloser c then (statementLength? (depth - 1) 0 rest).map (· + 1)
      else if c == ';' && depth ≤ 0 then some 0
      else (statementLength? depth 0 rest).map (· + 1)

/-! # Names and words -/

def blankLength (cs : List Char) : Nat :=
  (cs.takeWhile Text.isBlank).length

/-- The length of the rest of a dotted name whose first character has been read. -/
def pathTailLength : List Char → Nat
  | [] => 0
  | c :: rest =>
      if isNameChar c then 1 + pathTailLength rest
      else if c == '.' then
        match rest with
        | next :: _ => if isNameStart next then 1 + pathTailLength rest else 0
        | [] => 0
      else 0

def pathLength : List Char → Nat
  | c :: rest => if isNameStart c then 1 + pathTailLength rest else 0
  | [] => 0

/-- The length of a keyword, blanks and an opening parenthesis, if they stand first. -/
def headerStart? (keyword : String) (cs : List Char) : Option Nat :=
  if keyword.toList.isPrefixOf cs then
    let n := keyword.length + blankLength (cs.drop keyword.length)
    if (cs.drop n).head? == some '(' then some (n + 1) else none
  else none

/-- Whether a word stands first and is not part of a longer name. -/
def isWordFirst (word : String) (cs : List Char) : Bool :=
  word.toList.isPrefixOf cs &&
    match cs.drop word.length with
    | c :: _ => !isNameChar c
    | [] => true

/-! # Headers -/

def defaultItem : String := "item"
def defaultIndex : String := "index"

def trimmed (cs : List Char) : String :=
  String.ofList (Text.trim cs)

def indexName? (cs : List Char) : Option (String × List Char) :=
  match Text.trimStart cs with
  | ',' :: more =>
      let named := Text.trimStart more
      let n := nameLength named
      if n == 0 then none else some (String.ofList (named.take n), named.drop n)
  | _ => none

/--
The collection after the names of a loop: the word `in` between blanks, and then
a text. A text of blanks alone shrinks to its last blank.
-/
def collectionAfterIn? (cs : List Char) : Option (List Char) :=
  match Text.trimStart cs with
  | 'i' :: 'n' :: after =>
      let blanks := blankLength after
      if blankLength cs == 0 || blanks == 0 then none
      else
        match after.drop blanks with
        | [] => if blanks == 1 then none else some (after.drop (blanks - 1))
        | found => some (Text.trimEnd found)
  | _ => none

def eachNames? (header : List Char) : Option (String × String × List Char) :=
  let named := Text.trimStart header
  let n := nameLength named
  if n == 0 then none
  else
    let item := String.ofList (named.take n)
    match indexName? (named.drop n) with
    | some (index, rest) => (collectionAfterIn? rest).map fun found => (item, index, found)
    | none =>
        (collectionAfterIn? (named.drop n)).map fun found => (item, defaultIndex, found)

def readEach (header : List Char) : Except StructureFault Directive :=
  if Text.allBlank header then .error .noCollection
  else
    match eachNames? header with
    | some (item, index, collection) => .ok (.openEach item index (String.ofList collection))
    | none => .ok (.openEach defaultItem defaultIndex (trimmed header))

def includeParts? (header : List Char) : Option (List Char × Option (List Char)) :=
  let cs := Text.trimStart header
  let n := stringLength cs
  if n == 0 then none
  else
    match Text.trimStart (cs.drop n) with
    | [] => some (cs.take n, none)
    | ',' :: data => some (cs.take n, some data)
    | _ => none

def readInclude (header : List Char) : Except StructureFault Directive :=
  match includeParts? header with
  | none => .error .pathNotLiteral
  | some (literal, data) =>
      let path := unquote (String.ofList literal)
      if path.saysNothing then .error .emptyPath
      else
        match data with
        | none => .ok (.inclusion path none)
        | some text =>
            if Text.allBlank text then .error .emptyIncludeData
            else .ok (.inclusion path (some (trimmed text)))

/-! # Declarations -/

def commaParts (cs : List Char) : List (List Char) :=
  (cs.splitOnP (· == ',')).map Text.trim

def checkArrayNames : List (List Char) → Except StructureFault (List String)
  | [] => .ok []
  | part :: rest =>
      if isName part then (checkArrayNames rest).map (String.ofList part :: ·)
      else .error (.badArrayName (String.ofList part))

/-- A key and the name bound to its value; without a name the key serves as one. -/
def objectEntry (part : List Char) : List Char × List Char :=
  let key := Text.trim (part.takeWhile (· != ':'))
  let target := Text.trim ((part.dropWhile (· != ':')).drop 1)
  (key, if target.isEmpty then key else target)

def checkObjectEntries : List (List Char) → Except StructureFault (List (String × String))
  | [] => .ok []
  | part :: rest =>
      let entry := objectEntry part
      if isName entry.1 && isName entry.2 then
        (checkObjectEntries rest).map ((String.ofList entry.1, String.ofList entry.2) :: ·)
      else .error (.badObjectEntry (String.ofList part))

def readPattern (opener : Char) (inner : List Char) : Except StructureFault Pattern :=
  let parts := commaParts inner
  if parts.all List.isEmpty then .error .emptyPattern
  else if opener == '[' then (checkArrayNames parts).map .array
  else (checkObjectEntries parts).map .object

/-- What a declaration binds, and how many characters that takes. -/
def readTarget (cs : List Char) : Except StructureFault (Pattern × Nat) :=
  match cs with
  | [] => .error .noTarget
  | c :: rest =>
      if c == '\x7b' || c == '[' then
        match balancedLength "@var" (if c == '[' then ']' else '\x7d') [] 0 rest with
        | .error e => .error e
        | .ok n => (readPattern c (rest.take n)).map fun pattern => (pattern, n + 2)
      else
        let n := nameLength cs
        if n == 0 then .error .noTarget else .ok (.name (String.ofList (cs.take n)), n)

def assignmentLength? (cs : List Char) : Option Nat :=
  let n := blankLength cs
  match cs.drop n with
  | '=' :: rest => if rest.head? == some '=' then none else some (n + 1)
  | _ => none

/-- The assignment of a declaration, its value, and the blanks after its semicolon. -/
def readAssignment (cs : List Char) : Except StructureFault (String × Nat) :=
  match assignmentLength? cs with
  | none => .error .noAssignment
  | some assignment =>
      let rest := cs.drop assignment
      match statementLength? 0 0 rest with
      | none => .error .noSemicolon
      | some n =>
          if Text.allBlank (rest.take n) then .error .noValue
          else
            .ok (trimmed (rest.take n), assignment + n + 1 + blankLength (rest.drop (n + 1)))

def readDeclaration (cs : List Char) (start : Nat) : Except StructureFault (Directive × Nat) := do
  let (pattern, target) ← readTarget (cs.drop start)
  let (expression, rest) ← readAssignment (cs.drop (start + target))
  return (.declaration pattern expression, start + target + rest)

/-! # All directives -/

def readHeader (keyword : String) (cs : List Char) (start : Nat)
    (meaning : List Char → Except StructureFault Directive) :
    Except StructureFault (Directive × Nat) := do
  let n ← balancedLength ("@" ++ keyword) ')' [] 0 (cs.drop start)
  let directive ← meaning ((cs.drop start).take n)
  return (directive, start + n + 1)

def readIf (header : List Char) : Except StructureFault Directive :=
  if Text.allBlank header then .error (.noCondition "@if") else .ok (.openIf (trimmed header))

def readElif (header : List Char) : Except StructureFault Directive :=
  .ok (.elif (trimmed header))

def headed : List (String × (List Char → Except StructureFault Directive)) :=
  [("if", readIf), ("elif", readElif), ("each", readEach), ("include", readInclude)]

def readInterpolation (cs : List Char) : Except StructureFault (Directive × Nat) := do
  let n ← balancedLength "@\x7b" '\x7d' [] 0 (cs.drop 1)
  let inner := (cs.drop 1).take n
  if Text.allBlank inner then throw .emptyInterpolation
  return (.interpolation (trimmed inner), n + 2)

/--
The directive after an at sign and the number of characters it takes, the at
sign not counted; nothing if there is no directive.
-/
def Directive.read? (cs : List Char) : Option (Except StructureFault (Directive × Nat)) :=
  if cs.head? == some '\x7b' then some (readInterpolation cs)
  else
    match headed.findSome? fun h => (headerStart? h.1 cs).map fun n => (h, n) with
    | some (h, n) => some (readHeader h.1 cs n h.2)
    | none =>
        if "var".toList.isPrefixOf cs && blankLength (cs.drop 3) != 0 then
          some (readDeclaration cs (3 + blankLength (cs.drop 3)))
        else if isWordFirst "else" cs then some (.ok (.otherwise, 4))
        else if isWordFirst "end" cs then some (.ok (.close, 3))
        else
          let n := pathLength cs
          if n == 0 then none
          else some (.ok (.shorthand (String.ofList (cs.take n)), n))

end Stencil
