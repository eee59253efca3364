import Stencil.Error.Fact

/-!
# View errors

What the application is told when a view cannot be rendered or a setting cannot
be used: a code, a summary, what can be said in detail, what can be done about
it, and where the fault lies.
-/

namespace Stencil

inductive ErrorCategory where
  | parse
  | expression
  | inclusion
  | configuration
  | system
deriving DecidableEq, Repr

def ErrorCategory.name : ErrorCategory → String
  | parse => "PARSE"
  | expression => "EXPRESSION"
  | inclusion => "INCLUDE"
  | configuration => "CONFIGURATION"
  | system => "SYSTEM"

def ErrorCategory.ofName? (name : String) : Option ErrorCategory :=
  [parse, expression, inclusion, configuration, system].find? fun category =>
    category.name == name

structure ViewError where
  code : String
  category : ErrorCategory
  message : Text
  detail : Option Fact
  suggestion : Option Text
  httpStatus : Int
  /-- The view at fault. -/
  view : Option Fact
  /-- The line at fault, counted from one; zero stands for an unknown line. -/
  line : Option Fact
  cause : Option ViewError

namespace ViewError

def location (e : ViewError) : Text :=
  match Fact.said e.view, Fact.said e.line with
  | some view, some line => " [" ++ view.shown ++ ":" ++ line.shown ++ "]"
  | some view, none => " [" ++ view.shown ++ "]"
  | none, some line => " [line " ++ line.shown ++ "]"
  | none, none => ""

def text (e : ViewError) : Text :=
  e.code ++ ": " ++ e.message ++ e.location ++
    match Fact.said e.detail with
    | some detail => " - " ++ detail.shown
    | none => ""

/--
Adds a view and a line where none is known. An error that passes through
several views on its way out keeps the innermost.
-/
def within (e : ViewError) (view line : Option Fact) : ViewError :=
  { e with
    view := (Fact.said e.view).or view
    line := (Fact.said e.line).or line }

end ViewError
end Stencil
