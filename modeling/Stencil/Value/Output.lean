import Stencil.Json.Writer
import Stencil.Value.Store

/-!
# Output texts

How values look in the output of a view. Texts stand for themselves, numbers
and the reserved words as page authors write them, containers as compact JSON.
Undefined and functions have no text.

In JSON a number without a finite value becomes null, and so does undefined. A
container that contains itself has no JSON.
-/

namespace Stencil

def Builtin.name : Builtin → String
  | .json => "json"
  | .length => "length"
  | .default => "default"
  | .upper => "upper"
  | .lower => "lower"
  | .escape => "escape"
  | .stringify => "stringify"
  | .parse => "parse"

def Callable.name : Callable → String
  | .builtin function => function.name
  | .host name _ => name

def Callable.shown (f : Callable) : String :=
  "<function " ++ f.name ++ ">"

namespace Store

/-! # Documents of values -/

mutual

/-- The document of a value; `enter` gives that of a place in the store. -/
def documentWith (enter : Place → Except Failure Document) : Value → Except Failure Document
  | .undefined => .ok .null
  | .null => .ok .null
  | .bool b => .ok (.bool b)
  | .int n => .ok (.int n)
  | .float x => .ok (if x.isFinite then .float x else .null)
  | .str s => .ok (.str s)
  | .list items => do return .list (← documentItems enter items)
  | .map entries => do return .object (← documentEntries enter entries)
  | .callable f => .ok (.str f.shown)
  | .jsonTools =>
      .ok (.object [(.str "stringify", .str (Callable.builtin .stringify).shown),
        (.str "parse", .str (Callable.builtin .parse).shown)])
  | .host _ _ text _ => .ok (.str text)
  | .shared place => enter (.shared place)
  | .scope place => enter (.scope place)

def documentItems (enter : Place → Except Failure Document) :
    List Value → Except Failure (List Document)
  | [] => .ok []
  | v :: rest => do
      let first ← documentWith enter v
      let others ← documentItems enter rest
      return first :: others

def documentEntries (enter : Place → Except Failure Document) :
    List (Key × Value) → Except Failure (List (Key × Document))
  | [] => .ok []
  | (key, v) :: rest => do
      let first ← documentWith enter v
      let others ← documentEntries enter rest
      return (key, first) :: others

end

/--
The document of a place. The places being entered are kept: to meet one of them
again is to find a container inside itself. There are no more places to enter
than the store has, so the count never decides.
-/
def documentPlace (σ : Store) : Nat → List Place → Place → Except Failure Document
  | 0, _, _ => .error .circular
  | left + 1, entered, p =>
      if entered.contains p then .error .circular
      else documentWith (documentPlace σ left (p :: entered)) (σ.contents p)

def document (σ : Store) (v : Value) : Except Failure Document :=
  documentWith (documentPlace σ (σ.placeCount + 1) []) v

/-- Whether a value contains itself. -/
def containsItself (σ : Store) (v : Value) : Bool :=
  match σ.document v with
  | .ok _ => false
  | .error _ => true

/-! # Texts of values -/

def jsonText (σ : Store) (style : JsonStyle) (v : Value) : Except Failure Text := do
  Json.text style (← σ.document v)

/-- The text of a value, nothing if it has none. -/
def outputText (σ : Store) (v : Value) : Except Failure (Option Text) :=
  match v with
  | .undefined => .ok none
  | .callable _ => .ok none
  | .null => .ok (some "null")
  | .bool b => .ok (some (if b then "true" else "false"))
  | .int n => .ok (some (Number.int n).viewText)
  | .float x => .ok (some x.viewText)
  | .str s => .ok (some s)
  | .host _ _ text _ => .ok (some text)
  | v => (σ.jsonText .compact v).map some

end Store
end Stencil
