import Stencil.Text.Quoted
import Stencil.Value.Output

/-!
# Values in messages

Messages and logs show a value as it would be written down as data: texts inside
containers are quoted, numbers keep their kind, and the reserved words have
capitals. A text by itself is shown without quotes. Where a container contains
itself, dots stand for it.
-/

namespace Stencil

namespace Value

def shownBool (b : Bool) : String :=
  if b then "True" else "False"

def shownInt (n : Int) : String :=
  String.ofList (Text.decimalInt n)

end Value

namespace Key

def quoted : Key → String
  | undefined => "UNDEFINED"
  | null => "None"
  | bool b => Value.shownBool b
  | int n => Value.shownInt n
  | float x => x.dataText
  | str s => Text.quote s
  | callable f => f.shown

def shown : Key → Text
  | str s => s
  | key => key.quoted

end Key

namespace Store

def commaList (parts : List String) : String :=
  ", ".intercalate parts

mutual

/-- A value as it is shown inside a container; `enter` shows a place in the store. -/
def quotedWith (enter : Place → String) : Value → String
  | .undefined => "UNDEFINED"
  | .null => "None"
  | .bool b => Value.shownBool b
  | .int n => Value.shownInt n
  | .float x => x.dataText
  | .str s => Text.quote s
  | .list items => "[" ++ commaList (quotedItems enter items) ++ "]"
  | .map entries => "\x7b" ++ commaList (quotedEntries enter entries) ++ "\x7d"
  | .callable f => f.shown
  | .jsonTools => "JSON"
  | .host _ _ text _ => text
  | .shared place => enter (.shared place)
  | .scope place => enter (.scope place)

def quotedItems (enter : Place → String) : List Value → List String
  | [] => []
  | v :: rest => quotedWith enter v :: quotedItems enter rest

def quotedEntries (enter : Place → String) : List (Key × Value) → List String
  | [] => []
  | (key, v) :: rest => (key.quoted ++ ": " ++ quotedWith enter v) :: quotedEntries enter rest

end

def backReference (σ : Store) (p : Place) : String :=
  match σ.contents p with
  | .list _ => "[...]"
  | _ => "\x7b...\x7d"

/-- The contents of a place with what tells the kind of the place. -/
def framed (p : Place) (contents : String) : String :=
  match p with
  | .shared _ => contents
  | .scope _ => "RenderContext(" ++ contents ++ ")"

/-- The contents of a place as they are shown. Places being shown already stay closed. -/
def quotedPlace (σ : Store) : Nat → List Place → Place → String
  | 0, _, p => σ.backReference p
  | left + 1, entered, p =>
      if entered.contains p then σ.backReference p
      else framed p (quotedWith (quotedPlace σ left (p :: entered)) (σ.contents p))

def quoted (σ : Store) (v : Value) : String :=
  quotedWith (quotedPlace σ (σ.placeCount + 1) []) v

def shown (σ : Store) : Value → Text
  | .str s => s
  | v => σ.quoted v

end Store
end Stencil
