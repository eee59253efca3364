import Stencil.Journal.Settings
import Stencil.Json.Writer
import Stencil.Text.LetterCase
import Stencil.Value.Shown

/-!
# Log entries

An entry has a message for people and named fields for programs. It is written
either as a colored line for terminals or as one JSON object. In the object the
fields come after the time, level, component and message, and a field with one of
these names takes its place.
-/

namespace Stencil

structure LogEntry where
  level : LogLevel
  component : String
  message : Text
  /-- The fields, a mapping by rights; what counts as off holds none. -/
  context : Value

/-! # Colors -/

namespace Color

def ofPalette (n : Nat) : String :=
  "\x1b[38;5;" ++ toString n ++ "m"

def reset : String := "\x1b[0m"
def green : String := ofPalette 82
def red : String := ofPalette 196
def yellow : String := ofPalette 226
def lightBlue : String := ofPalette 153
def cyan : String := ofPalette 51
def magenta : String := ofPalette 201
def orange : String := ofPalette 208

def ofLevel : LogLevel → String
  | .debug => lightBlue
  | .info => cyan
  | .warn => yellow
  | .error => red

def ofComponent (component : String) : String :=
  if component == "render" then magenta
  else if component == "include" then green
  else if component == "expression" then orange
  else if component == "config" then cyan
  else reset

end Color

/-! # Documents of fields -/

namespace Store

mutual

/--
A field as a document. What has no form of its own in JSON is shown as a text. In a
mapping, each key is looked at before its value.
-/
def fieldWith (σ : Store) (enter : Place → Except Failure Document) :
    Value → Except Failure Document
  | .null => .ok .null
  | .bool b => .ok (.bool b)
  | .int n => .ok (.int n)
  | .float x => .ok (.float x)
  | .str s => .ok (.str s)
  | .list items => do return .list (← fieldItems σ enter items)
  | .map entries => do return .object (← fieldEntries σ enter entries)
  | .shared place => enter (.shared place)
  | v => .ok (.str (σ.quoted v))

def fieldItems (σ : Store) (enter : Place → Except Failure Document) :
    List Value → Except Failure (List Document)
  | [] => .ok []
  | v :: rest => do
      let first ← fieldWith σ enter v
      let others ← fieldItems σ enter rest
      return first :: others

def fieldEntries (σ : Store) (enter : Place → Except Failure Document) :
    List (Key × Value) → Except Failure (List (Key × Document))
  | [] => .ok []
  | (key, v) :: rest => do
      let _ ← Json.keyText .logLine key
      let first ← fieldWith σ enter v
      let others ← fieldEntries σ enter rest
      return (key, first) :: others

end

/-- The document of a place; to meet a place inside itself is a failure. -/
def fieldPlace (σ : Store) : Nat → List Place → Place → Except Failure Document
  | 0, _, _ => .error .circular
  | left + 1, entered, p =>
      if entered.contains p then .error .circular
      else fieldWith σ (fieldPlace σ left (p :: entered)) (σ.contents p)

def fieldDocument (σ : Store) (v : Value) : Except Failure Document :=
  fieldWith σ (fieldPlace σ (σ.placeCount + 1) []) v

end Store

namespace LogEntry

def fields (σ : Store) (entry : LogEntry) : Except Failure (Entries Value) :=
  if !entry.context.isOn then .ok []
  else
    match σ.entries? entry.context with
    | some entries => .ok entries
    | none => .error (.notMapping (σ.typeName entry.context))

/-! # Lines -/

/-- Cuts a text and marks the cut; a limit below zero counts from the end. -/
def truncate (limit : Int) (text : Text) : Text :=
  if (text.length : Int) ≤ limit then text
  else
    let kept := if limit < 0 then text.length - limit.natAbs else limit.toNat
    text.take kept ++ "..."

def details? (settings : LogSettings) (σ : Store) (entry : LogEntry) : Option Text :=
  if !entry.context.isOn || !settings.showContext.isOn then none
  else some (truncate settings.truncateAt (σ.shown entry.context))

def coloredLine (settings : LogSettings) (σ : Store) (entry : LogEntry) : Text :=
  Color.ofComponent entry.component ++ "[" ++ Text.upper entry.component ++ "]" ++
    Color.reset ++ " " ++ Color.ofLevel entry.level ++ entry.message ++ Color.reset ++
    match entry.details? settings σ with
    | some details => " " ++ Color.lightBlue ++ details ++ Color.reset
    | none => ""

def entries (time : String) (σ : Store) (entry : LogEntry) : Except Failure (Entries Value) := do
  let fields ← entry.fields σ
  return Entries.merge
    [ (.str "timestamp", .str time),
      (.str "level", .str entry.level.name),
      (.str "component", .str entry.component),
      (.str "message", .str entry.message) ] fields

def jsonLine (time : String) (σ : Store) (entry : LogEntry) : Except Failure Text := do
  Json.text .logLine (← σ.fieldDocument (.map (← entry.entries time σ)))

def line (settings : LogSettings) (time : String) (σ : Store) (entry : LogEntry) :
    Except Failure Text :=
  match settings.format with
  | .json => entry.jsonLine time σ
  | .colored => .ok (entry.coloredLine settings σ)

def isEnabled (settings : LogSettings) (entry : LogEntry) : Bool :=
  settings.enabled entry.level entry.component

end LogEntry
end Stencil
