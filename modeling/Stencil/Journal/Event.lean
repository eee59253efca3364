import Stencil.Error.ViewError
import Stencil.Journal.Entry

/-!
# The journal

The journal of a render or of a reading of settings is the row of everything
worth telling, in the order in which it happens. What becomes of it is decided
afterwards: a log is what the settings let through, line by line. So no render
can depend on how it is logged.
-/

namespace Stencil

structure Cause where
  kind : String
  text : Text
deriving DecidableEq, Repr

def ViewError.asCause (error : ViewError) : Cause :=
  ⟨"ViewError", error.text⟩

/-- What can happen during a render. -/
inductive Event where
  | renderStarted
  /-- The duration is in milliseconds, the size in code points. -/
  | renderCompleted (duration size includes : Int)
  | renderFailed (cause : Cause) (duration : Int)
  | includeLoading (path : Text) (depth : Int)
  /-- An include that stays empty. -/
  | includeMissing (path reason : Text)
  | includeCycle (path : Text) (chain : List Text)
  /-- An expression that has no value, taken as undefined. -/
  | expressionFailed (expression : String) (cause : Cause)
  /-- A value that cannot be used. -/
  | expressionIgnored (expression reason : String)
deriving DecidableEq, Repr

namespace Event

/-- A view as the log names it; a source without a name is a string. -/
def viewLabel (view : Option Text) : Text :=
  (Text.said view).getD "<string>"

def name : Event → String
  | renderStarted => "render_started"
  | renderCompleted _ _ _ => "render_completed"
  | renderFailed _ _ => "render_failed"
  | includeLoading _ _ => "include_loading"
  | includeMissing _ _ => "include_missing"
  | includeCycle _ _ => "include_cycle"
  | expressionFailed _ _ => "expression_failed"
  | expressionIgnored _ _ => "expression_ignored"

def level : Event → LogLevel
  | renderFailed _ _ => .error
  | includeMissing _ _ => .warn
  | includeCycle _ _ => .error
  | _ => .debug

def component : Event → String
  | renderStarted => "render"
  | renderCompleted _ _ _ => "render"
  | renderFailed _ _ => "render"
  | includeLoading _ _ => "include"
  | includeMissing _ _ => "include"
  | includeCycle _ _ => "include"
  | expressionFailed _ _ => "expression"
  | expressionIgnored _ _ => "expression"

def seconds (ms : Int) : String :=
  (Binary64.ofUnits (ms < 0) (ms.natAbs * Binary64.one) 1000).placesText 3

def message (view : Text) : Event → Text
  | renderStarted => "Rendering '" ++ view ++ "'"
  | renderCompleted duration size includes =>
      "Rendered '" ++ view ++ "' (" ++ toString size ++ " chars, " ++ toString includes ++
        " includes, " ++ seconds duration ++ "s) ✓"
  | renderFailed cause _ => "Render of '" ++ view ++ "' failed: " ++ cause.text
  | includeLoading path _ => "Including '" ++ path ++ "'"
  | includeMissing path _ => "Include '" ++ path ++ "' could not be loaded, rendering empty output"
  | includeCycle path _ => "Include cycle at '" ++ path ++ "'"
  | expressionFailed expression cause =>
      "Expression '" ++ expression ++ "' failed: " ++ cause.text
  | expressionIgnored expression reason =>
      "Expression '" ++ expression ++ "' ignored: " ++ reason

def field (name : String) (value : Value) : Key × Value :=
  (.str name, value)

def causeFields (cause : Cause) : Entries Value :=
  [field "error" (.str cause.text), field "error_type" (.str cause.kind)]

/-- What an event tells besides the view and its own name. -/
def ownFields : Event → Entries Value
  | renderStarted => []
  | renderCompleted duration size includes =>
      [ field "duration_ms" (.int duration),
        field "output_size" (.int size),
        field "include_count" (.int includes) ]
  | renderFailed cause duration => field "duration_ms" (.int duration) :: causeFields cause
  | includeLoading path depth => [field "path" (.str path), field "depth" (.int depth)]
  | includeMissing path reason => [field "path" (.str path), field "error" (.str reason)]
  | includeCycle path chain =>
      [field "path" (.str path), field "chain" (.list (chain.map .str))]
  | expressionFailed expression cause =>
      field "expression" (.str expression) :: causeFields cause
  | expressionIgnored expression reason =>
      [field "expression" (.str expression), field "reason" (.str reason)]

/-- The entry of an event in the render of a view. -/
def entry (view : Text) (event : Event) : LogEntry where
  level := event.level
  component := event.component
  message := event.message view
  context := .map
    (field "view" (.str view) :: field "event" (.str event.name) :: event.ownFields)

end Event

/-- The log entries of something, first entry first. -/
abbrev Journal : Type := List LogEntry

namespace Journal

def filtered (settings : LogSettings) (journal : Journal) : Journal :=
  journal.filter fun entry => entry.isEnabled settings

/-- The lines of a journal, up to the first entry that cannot be written. -/
def lines (settings : LogSettings) (time : String) (σ : Store) (journal : Journal) :
    Except Failure (List Text) :=
  (filtered settings journal).mapM fun entry => entry.line settings time σ

end Journal
end Stencil
