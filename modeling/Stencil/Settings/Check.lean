import Stencil.Error.Trouble
import Stencil.Settings.Basic

/-!
# Checking settings

Settings are checked before they are used. A name that means nothing is a warning;
a value that cannot be used is an error. The names are checked in the order in which
they are given, the values in the order of the settings.
-/

namespace Stencil

inductive Severity where
  | error
  | warning
deriving DecidableEq, Repr

structure Issue where
  /-- The names that lead to the setting, with dots between them. -/
  path : Key
  message : Text
  severity : Severity

structure Findings where
  errors : List Issue
  warnings : List Issue

namespace Issue

def error (path : Key) (message : Text) : Issue := ⟨path, message, .error⟩

def unknown (path : Key) : Issue :=
  ⟨path, "Unknown configuration key: " ++ path.shown, .warning⟩

end Issue

namespace Findings

def isValid (findings : Findings) : Bool :=
  findings.errors.isEmpty

def none : Findings := ⟨[], []⟩

def add (findings : Findings) (issue : Issue) : Findings :=
  match issue.severity with
  | .error => { findings with errors := findings.errors ++ [issue] }
  | .warning => { findings with warnings := findings.warnings ++ [issue] }

end Findings

namespace Settings

/-! # Names -/

def viewNames : List String :=
  ["views_path", "views_type", "max_include_depth", "cache", "create_views_dir"]

def logNames : List String :=
  ["level", "format", "show_context", "truncate_at", "components"]

def sectionNames? (key : Key) : Option (List String) :=
  if key == .str "views" then some viewNames
  else if key == .str "logging" then some logNames
  else none

/-- The name of a setting inside a section. -/
def innerPath (outer key : Key) : Key :=
  .str (outer.shown ++ "." ++ key.shown)

def isNamed (names : List String) (key : Key) : Bool :=
  names.any fun name => key == .str name

def nameIssues (σ : Store) (entry : Key × Value) : List Issue :=
  match sectionNames? entry.1 with
  | none => [.unknown entry.1]
  | some names =>
      match σ.entries? entry.2 with
      | none => [.error entry.1 (entry.1.shown ++ " must be a dictionary")]
      | some inner =>
          (inner.keys.filter fun key => !isNamed names key).map fun key =>
            .unknown (innerPath entry.1 key)

/-! # Values -/

def isAsciiAlphanumeric (c : Char) : Bool :=
  c.isAlpha || c.isDigit

/-- Whether a text is a plain extension; a line break at its end does not count. -/
def isPlainExtension (text : String) : Bool :=
  let cs := text.toList
  let bare := if cs.getLast? == some '\n' then cs.dropLast else cs
  !bare.isEmpty && bare.all isAsciiAlphanumeric

def pathIssue? (isPlainFile : Text → Except Trouble Bool) (value : Value) :
    Except Trouble (Option Text) :=
  match Text.said value.text? with
  | none => .ok (some "views_path must be a non-empty string")
  | some path => do
      if ← isPlainFile path then
        return some ("views_path '" ++ path ++ "' is not a directory")
      else return none

def typeIssue? (value : Value) : Option Text :=
  match value.string?.filter isPlainExtension with
  | some _ => none
  | none => some "views_type must be a plain file extension such as 'html'"

/-- Only a whole number above zero will do; a truth value is no number here. -/
def countIssue? (name : String) : Value → Option Text
  | .int n => if n ≤ 0 then some (name ++ " must be a positive integer") else none
  | _ => some (name ++ " must be a positive integer")

def flagIssue? (name : String) : Value → Option Text
  | .bool _ => none
  | _ => some (name ++ " must be a boolean")

def choiceComplaint (name : String) (choices : List String) : Text :=
  let quoted := choices.map fun choice => Text.quote (.ofString choice)
  name ++ " must be one of [" ++ Store.commaList quoted ++ "]"

/-- A choice among names. A container cannot even be looked up among them. -/
def choiceIssue? (name : String) (choices : List String) (value : Value) :
    Except Trouble (Option Text) :=
  match value, value.key? with
  | .str text, _ =>
      .ok (if choices.any fun c => text == c then none else some (choiceComplaint name choices))
  | .host _ _ _ _, _ => .ok (some (choiceComplaint name choices))
  | _, some _ => .ok (some (choiceComplaint name choices))
  | _, none => .error (Failure.notKey "container").trouble

def valueIssues (within : String) (entries : Entries Value) (name : String)
    (complaint? : Value → Except Trouble (Option Text)) : Except Trouble (List Issue) :=
  match entries.named name with
  | none => .ok []
  | some value => do
      match ← complaint? value with
      | some message => return [.error (.str (within ++ "." ++ name)) message]
      | none => return []

def viewIssues (isPlainFile : Text → Except Trouble Bool) (entries : Entries Value) :
    Except Trouble (List Issue) := do
  let path ← valueIssues "views" entries "views_path" (pathIssue? isPlainFile)
  let type ← valueIssues "views" entries "views_type" fun v => .ok (typeIssue? v)
  let depth ← valueIssues "views" entries "max_include_depth" fun v =>
    .ok (countIssue? "max_include_depth" v)
  let cache ← valueIssues "views" entries "cache" fun v => .ok (flagIssue? "cache" v)
  let create ← valueIssues "views" entries "create_views_dir" fun v =>
    .ok (flagIssue? "create_views_dir" v)
  return path ++ type ++ depth ++ cache ++ create

def logIssues (entries : Entries Value) : Except Trouble (List Issue) := do
  let level ← valueIssues "logging" entries "level"
    (choiceIssue? "level" (LogLevel.all.map LogLevel.name))
  let format ← valueIssues "logging" entries "format"
    (choiceIssue? "format" (LogFormat.all.map LogFormat.name))
  let limit ← valueIssues "logging" entries "truncate_at" fun v =>
    .ok (countIssue? "truncate_at" v)
  return level ++ format ++ limit

/--
Checks settings given as entries. `isPlainFile` tells of a path whether it leads to a
file; looking at it may end in trouble.
-/
def checkEntries (isPlainFile : Text → Except Trouble Bool) (σ : Store)
    (entries : Entries Value) : Except Trouble Findings := do
  let views ←
    match section? σ entries "views" with
    | some inner => viewIssues isPlainFile inner
    | none => .ok []
  let logging ←
    match section? σ entries "logging" with
    | some inner => logIssues inner
    | none => .ok []
  return (entries.flatMap (nameIssues σ) ++ views ++ logging).foldl Findings.add Findings.none

def entriesOf (σ : Store) (given : Value) : Except Trouble (Entries Value) :=
  match σ.entries? given with
  | some entries => .ok entries
  | none => .error (Failure.noEntries (σ.typeName given)).trouble

def check (isPlainFile : Text → Except Trouble Bool) (σ : Store) (given : Value) :
    Except Trouble Findings := do
  checkEntries isPlainFile σ (← entriesOf σ given)

end Settings
end Stencil
