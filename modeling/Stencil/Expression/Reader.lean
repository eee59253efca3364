import Stencil.Expression.Literal
import Stencil.Expression.Tree
import Stencil.Number.Reading

/-!
# Reading expressions

A recursive descent over the tokens. Each function reads one phrase from the
front and returns its tree with the tokens that are left. Every step of the
descent takes one unit of the budget; the budget is large enough for every row
of tokens it is made for, so it never decides an answer.
-/

namespace Stencil
namespace Expr

/-! # Single tokens -/

def Token.isOperator (token : Token) (sign : String) : Bool :=
  token.kind == .operator && token.text == sign

def accept? (sign : String) : List Token → Option (List Token)
  | token :: rest => if Token.isOperator token sign then some rest else none
  | [] => none

def acceptOf? (signOf : α → String) (ops : List α) (tokens : List Token) :
    Option (α × List Token) :=
  ops.findSome? fun op => (accept? (signOf op) tokens).map fun rest => (op, rest)

def expect (sign : String) (tokens : List Token) : Except SyntaxError (List Token) :=
  match accept? sign tokens, tokens with
  | some rest, _ => .ok rest
  | none, found :: _ => .error (.expected sign found)
  | none, [] => .error .unfinished

def ofNumber (text : String) : Expr :=
  let cs := text.toList
  if cs.any fun c => c == '.' || c == 'e' || c == 'E' then
    .literal (.float (NumberText.toBinary cs))
  else .literal (.int (Text.numeral (cs.filterMap Text.digitValue?)))

/-- The key of an object entry; a name may also stand for its own value. -/
inductive EntryKey where
  | word (text : String)
  | quoted (text : Text)

def EntryKey.text : EntryKey → Text
  | word text => text
  | quoted text => text

def entryKey? (token : Token) : Option EntryKey :=
  match token.kind with
  | .name => some (.word token.text)
  | .string => some (.quoted (unquote token.text))
  | .number => some (.quoted token.text)
  | _ => none

/-! # Phrases -/

mutual

def readConditional : Nat → List Token → Except SyntaxError (Expr × List Token)
  | 0, _ => .error .unfinished
  | budget + 1, tokens => do
      let (test, rest) ← readTier budget tiers tokens
      match accept? "?" rest with
      | none => return (test, rest)
      | some rest =>
          let (yes, rest) ← readConditional budget rest
          let rest ← expect ":" rest
          let (no, rest) ← readConditional budget rest
          return (.conditional test yes no, rest)

/-- Operands of the next tighter tier with the operators of this one between them. -/
def readTier : Nat → List Tier → List Token → Except SyntaxError (Expr × List Token)
  | 0, _, _ => .error .unfinished
  | budget + 1, [], tokens => readUnary budget tokens
  | budget + 1, ops :: tighter, tokens => do
      let (first, rest) ← readTier budget tighter tokens
      readChain budget ops tighter first rest

def readChain : Nat → Tier → List Tier → Expr → List Token → Except SyntaxError (Expr × List Token)
  | 0, _, _, _, _ => .error .unfinished
  | budget + 1, ops, tighter, left, tokens =>
      match acceptOf? Connective.sign ops tokens with
      | none => .ok (left, tokens)
      | some (op, rest) => do
          let (right, rest) ← readTier budget tighter rest
          readChain budget ops tighter (op.join left right) rest

def readUnary : Nat → List Token → Except SyntaxError (Expr × List Token)
  | 0, _ => .error .unfinished
  | budget + 1, tokens =>
      match acceptOf? UnaryOp.sign unaryOps tokens with
      | some (op, rest) => do
          let (operand, rest) ← readUnary budget rest
          return (.unary op operand, rest)
      | none => do
          let (first, rest) ← readPrimary budget tokens
          readSuffixes budget first rest

def readSuffixes : Nat → Expr → List Token → Except SyntaxError (Expr × List Token)
  | 0, _, _ => .error .unfinished
  | budget + 1, target, tokens =>
      match accept? "." tokens, accept? "[" tokens, accept? "(" tokens with
      | some rest, _, _ =>
          match rest with
          | found :: rest =>
              if found.kind == .name then
                readSuffixes budget (.member target (.literal (.str found.text))) rest
              else .error (.noPropertyName found.position)
          | [] => .error .unfinished
      | _, some rest, _ => do
          let (key, rest) ← readConditional budget rest
          let rest ← expect "]" rest
          readSuffixes budget (.member target key) rest
      | _, _, some rest => do
          let (args, rest) ← readList budget ")" rest
          readSuffixes budget (.call target args) rest
      | none, none, none => .ok (target, tokens)

def readList : Nat → String → List Token → Except SyntaxError (List Expr × List Token)
  | 0, _, _ => .error .unfinished
  | budget + 1, closer, tokens =>
      match accept? closer tokens with
      | some rest => .ok ([], rest)
      | none => do
          let (first, rest) ← readConditional budget tokens
          match accept? closer rest with
          | some rest => return ([first], rest)
          | none =>
              let rest ← expect "," rest
              let (others, rest) ← readList budget closer rest
              return (first :: others, rest)

def readPrimary : Nat → List Token → Except SyntaxError (Expr × List Token)
  | 0, _ => .error .unfinished
  | _ + 1, [] => .error .unfinished
  | budget + 1, token :: rest =>
      match token.kind with
      | .number => .ok (ofNumber token.text, rest)
      | .string => .ok (.literal (.str (unquote token.text)), rest)
      | .name => .ok (.ofWord token.text, rest)
      | .operator =>
          if token.text == "(" then do
            let (inner, rest) ← readConditional budget rest
            let rest ← expect ")" rest
            return (inner, rest)
          else if token.text == "[" then do
            let (items, rest) ← readList budget "]" rest
            return (.array items, rest)
          else if token.text == "\x7b" then do
            let (entries, rest) ← readEntries budget rest
            return (.object entries, rest)
          else .error (.unexpected token)
      | .stop => .error (.unexpected token)

def readEntries : Nat → List Token → Except SyntaxError (List (Text × Expr) × List Token)
  | 0, _ => .error .unfinished
  | budget + 1, tokens =>
      match accept? "\x7d" tokens with
      | some rest => .ok ([], rest)
      | none => do
          let (first, rest) ← readEntry budget tokens
          match accept? "\x7d" rest with
          | some rest => return ([first], rest)
          | none =>
              let rest ← expect "," rest
              let (others, rest) ← readEntries budget rest
              return (first :: others, rest)

def readEntry : Nat → List Token → Except SyntaxError ((Text × Expr) × List Token)
  | 0, _ => .error .unfinished
  | _ + 1, [] => .error .unfinished
  | budget + 1, token :: rest =>
      match entryKey? token with
      | none => .error (.noObjectKey token.position)
      | some key =>
          match accept? ":" rest with
          | some rest => do
              let (value, rest) ← readConditional budget rest
              return ((key.text, value), rest)
          | none =>
              match key with
              | .word text => .ok ((text, .name text), rest)
              | .quoted text => .error (.noColon text)

end

/-! # Whole expressions -/

/-- Steps enough for a row of tokens: no phrase takes more than this many per token. -/
def budgetFor (tokens : List Token) : Nat :=
  16 * (tokens.length + 1)

def ofTokens (tokens : List Token) : Except SyntaxError Expr := do
  match tokens with
  | [] => .error .unfinished
  | first :: _ =>
      if first.kind == .stop then .error .empty
      else
        let (tree, rest) ← readConditional (budgetFor tokens) tokens
        match rest with
        | [] => .error .unfinished
        | next :: _ => if next.kind == .stop then .ok tree else .error (.unexpected next)

/-- Reads a text as one expression; white space around it has no meaning. -/
def compile (source : String) : Except SyntaxError Expr := do
  ofTokens (← tokenize (Text.strip source))

end Expr
end Stencil
