import Stencil.Failure
import Stencil.Value.Store

/-!
# Members

Views read mappings by key, lists and texts by position, and host objects by the
name of an attribute. Attributes whose names start with an underscore, and
functions that are attributes, stay hidden. What is not there is undefined.
-/

namespace Stencil

/-- A position given by a value: a whole number, or a numeral in a text. -/
def Value.position? : Value → Except Failure (Option Int)
  | .int n => .ok (some n)
  | .float x => .ok x.toInt?
  | .str s =>
      let isSigns := !s.isEmpty && s.points.all (CodePoint.isChar Text.isDigitSign)
      match isSigns, s.chars?.bind Text.numeral? with
      | false, _ => .ok none
      | true, some n => .ok (some n)
      | true, none => .error (.notNumeral s)
  | _ => .ok none

def Value.isText (s : Text) : Value → Bool
  | .str t => s == t
  | _ => false

def elementAt (elements : List Value) (position : Int) : Value :=
  if position < 0 then .undefined else elements.getD position.toNat .undefined

/-- Elements are read by position; `length` gives their number. -/
def elementMember (elements : List Value) (key : Value) : Except Failure Value :=
  if key.isText "length" then .ok (.int elements.length)
  else
    match key.position? with
    | .error e => .error e
    | .ok none => .ok .undefined
    | .ok (some n) => .ok (elementAt elements n)

def pointValues (s : Text) : List Value :=
  s.points.map fun p => .str (Text.singleton p)

/-- The attributes that views may see. -/
def visibleAttribute (attributes : List (String × Value)) (name : Text) : Value :=
  if name.points.head? == some '_' then .undefined
  else
    match attributes.find? fun entry => name == entry.1 with
    | some entry => if entry.2.isCallable then .undefined else entry.2
    | none => .undefined

def callableAttributes : Callable → List (String × Value)
  | .host _ true => [("pass_context", .bool true)]
  | _ => []

namespace Store

/-- Reads a member of a value. -/
def member (σ : Store) (target key : Value) : Except Failure Value :=
  match σ.shape target with
  | .map entries =>
      match key.key? with
      | some k => .ok ((Entries.get? entries k).getD .undefined)
      | none => .ok .undefined
  | .list items => elementMember items key
  | .plain =>
      match target, key with
      | .str s, key => elementMember (pointValues s) key
      | .host _ _ _ attributes, .str name => .ok (visibleAttribute attributes name)
      | .callable f, .str name => .ok (visibleAttribute (callableAttributes f) name)
      | _, _ => .ok .undefined

end Store
end Stencil
