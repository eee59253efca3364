import Stencil.Json.Reader
import Stencil.Text.LetterCase
import Stencil.Text.Markup
import Stencil.Value.Output

/-!
# Built-in helpers

What the helpers that every view can use do with their arguments. None of them
changes the store.
-/

namespace Stencil
namespace Builtin

def textOrEmpty (σ : Store) (v : Value) : Except Failure Text :=
  (σ.outputText v).map (·.getD "")

def mapText (σ : Store) (f : Text → Text) (v : Value) : Except Failure Value :=
  (textOrEmpty σ v).map fun s => .str (f s)

def lengthOf (σ : Store) (v : Value) : Except Failure Value :=
  match v, σ.shape v with
  | .str s, _ => .ok (.int s.length)
  | _, .list items => .ok (.int items.length)
  | _, .map entries => .ok (.int entries.length)
  | v, .plain => .error (.noLength (σ.typeName v))

def maxIndent : Nat := 10

/-- The depth of an indentation step that a value asks for: only a number of at least one does. -/
def indentStep (space : Value) : Except Failure (Option Nat) :=
  match space with
  | .int n => .ok (if 1 ≤ n then some (min n.toNat maxIndent) else none)
  | .float x =>
      if x.compareInt? 1 == some .lt || x.isNaN then .ok none
      else
        match x.truncate? with
        | some n => .ok (some (min n.toNat maxIndent))
        | none => .error (.arithmetic .tooLarge)
  | _ => .ok none

def styleFor (indent : Option Nat) : JsonStyle :=
  match indent with
  | some step => .indented step
  | none => .compact

def stringifyValue (σ : Store) (v space : Value) : Except Failure Value :=
  if v.isUndefined || v.isCallable then .ok .undefined
  else do
    let indent ← indentStep space
    let text ← σ.jsonText (styleFor indent) v
    return .str text

def parseValue (σ : Store) : Value → Except Failure Value
  | .str s =>
      match Json.read? s with
      | some d => .ok (.ofDocument d)
      | none => .error .malformedData
  | v => .error (.notText (σ.typeName v))

def run (σ : Store) (function : Builtin) (args : List Value) : Except Failure Value :=
  match function, args with
  | .json, [v] => (σ.jsonText .compact v).map .str
  | .length, [v] => lengthOf σ v
  | .default, [v, fallback] => .ok (if v.isNullish then fallback else v)
  | .upper, [v] => mapText σ Text.upper v
  | .lower, [v] => mapText σ Text.lower v
  | .escape, [v] => mapText σ Text.escapeMarkup v
  | .stringify, [v] => stringifyValue σ v .null
  | .stringify, [v, _] => stringifyValue σ v .null
  | .stringify, [v, _, space] => stringifyValue σ v space
  | .parse, [v] => parseValue σ v
  | _, _ => .error .wrongArguments

end Builtin
end Stencil
