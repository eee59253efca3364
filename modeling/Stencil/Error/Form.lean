import Stencil.Error.ViewError

/-!
# Error forms

Each code of error has a form: texts with gaps that the facts of a case fill. A
gap is a name between braces, and a brace is written twice to stand for itself.
A text with a gap that no fact fills is left as it is.
-/

namespace Stencil

/-! # Texts with gaps -/

inductive FormPart where
  | char (c : Char)
  | gap (name : List Char)
deriving DecidableEq, Repr

/-- Adds a character to the name of the gap that a text begins in. -/
def FormPart.extend (c : Char) : Option (List Char × List FormPart) →
    Option (List Char × List FormPart)
  | some (name, parts) => some (c :: name, parts)
  | none => none

mutual

/-- The parts of a text; nothing if a brace stands alone. -/
def formParts? : List Char → Option (List FormPart)
  | [] => some []
  | '\x7b' :: '\x7b' :: rest => (formParts? rest).map (.char '\x7b' :: ·)
  | '\x7d' :: '\x7d' :: rest => (formParts? rest).map (.char '\x7d' :: ·)
  | '\x7b' :: rest => (gapName? rest).map fun gap => .gap gap.1 :: gap.2
  | '\x7d' :: _ => none
  | c :: rest => (formParts? rest).map (.char c :: ·)

def gapName? : List Char → Option (List Char × List FormPart)
  | [] => none
  | '\x7d' :: rest => (formParts? rest).map fun parts => ([], parts)
  | c :: rest => FormPart.extend c (gapName? rest)

end

def fillParts (facts : Facts) : List FormPart → Option (List CodePoint)
  | [] => some []
  | .char c :: rest => (fillParts facts rest).map (.char c :: ·)
  | .gap name :: rest =>
      match facts.get? (String.ofList name) with
      | some fact => (fillParts facts rest).map (fact.shown.points ++ ·)
      | none => none

/-- Fills the gaps of a text; the text itself if a gap stays open. -/
def fillText (facts : Facts) (text : String) : Text :=
  match (formParts? text.toList).bind (fillParts facts) with
  | some filled => ⟨filled⟩
  | none => text

/-! # Forms -/

structure ErrorForm where
  code : String
  category : ErrorCategory
  /-- The summary; without one, the error is known by its code only. -/
  message : Option String
  detail : Option String
  suggestion : Option String
  httpStatus : Int

/--
The error of a case. A detail among the facts goes before that of the form; the
facts may also name the view and the line.
-/
def ErrorForm.fill (form : ErrorForm) (facts : Facts) (cause : Option ViewError) : ViewError where
  code := form.code
  category := form.category
  message := (form.message.map (fillText facts)).getD ("Error " ++ form.code)
  detail := (facts.said? "detail").or (form.detail.map fun text => .text (fillText facts text))
  suggestion := form.suggestion.map (fillText facts)
  httpStatus := form.httpStatus
  view := facts.known? "view"
  line := facts.known? "line"
  cause := cause

namespace ErrorForm

def parseStructure : ErrorForm where
  code := "PARSE_STRUCTURE"
  category := .parse
  message := some "Malformed directive structure"
  detail := some "The view contains an unterminated or mismatched directive"
  suggestion := some "Check that every @if and @each has a matching @end"
  httpStatus := 500

def expressionFailed : ErrorForm where
  code := "EXPRESSION_FAILED"
  category := .expression
  message := some "Expression '\x7bexpression\x7d' could not be evaluated"
  detail := some "The expression is malformed or a helper raised"
  suggestion := some "Check the expression syntax and helper arguments"
  httpStatus := 500

def includeCycle : ErrorForm where
  code := "INCLUDE_CYCLE"
  category := .inclusion
  message := some "Include cycle detected at '\x7bpath\x7d'"
  detail := some "Include chain: \x7bchain\x7d"
  suggestion := some "Remove the self-referential @include or lower the nesting"
  httpStatus := 500

def includeNotFound : ErrorForm where
  code := "INCLUDE_NOT_FOUND"
  category := .inclusion
  message := some "Included view '\x7bpath\x7d' could not be loaded"
  detail := some "The include was replaced with empty output"
  suggestion := some "Check the include path relative to the views directory"
  httpStatus := 404

def viewNotFound : ErrorForm where
  code := "VIEW_NOT_FOUND"
  category := .inclusion
  message := some "View '\x7bpath\x7d' not found"
  detail := some "No view file exists at the resolved path"
  suggestion := some "Check the view name and the configured views_path"
  httpStatus := 404

def viewReadFailed : ErrorForm where
  code := "VIEW_READ_FAILED"
  category := .inclusion
  message := some "View '\x7bpath\x7d' could not be read"
  detail := some "The view file exists but reading it failed"
  suggestion := some "Check file permissions and that the file is UTF-8 text"
  httpStatus := 500

def helperInvalid : ErrorForm where
  code := "HELPER_INVALID"
  category := .configuration
  message := some "Invalid helper registration"
  detail := some "Helper names must be non-empty identifiers and helpers callables"
  suggestion := some "Register helpers as register_helper('name', function)"
  httpStatus := 500

def configInvalid : ErrorForm where
  code := "CONFIG_INVALID"
  category := .configuration
  message := some "Invalid configuration"
  detail := some "The views configuration is invalid"
  suggestion := some "Check the configuration file and fix errors"
  httpStatus := 500

def internalError : ErrorForm where
  code := "INTERNAL_ERROR"
  category := .system
  message := some "Internal view engine error"
  detail := some "An unexpected error occurred in the view engine"
  suggestion := some "Check the logs and report this issue"
  httpStatus := 500

def builtins : List ErrorForm :=
  [ parseStructure, expressionFailed, includeCycle, includeNotFound, viewNotFound,
    viewReadFailed, helperInvalid, configInvalid, internalError ]

end ErrorForm

/-! # Catalogs -/

/-- The forms in use, in the order in which their codes first came. -/
abbrev Catalog : Type := List ErrorForm

namespace Catalog

def standard : Catalog := ErrorForm.builtins

def form? (catalog : Catalog) (code : String) : Option ErrorForm :=
  catalog.find? fun form => form.code == code

def register : Catalog → ErrorForm → Catalog
  | [], form => [form]
  | f :: rest, form => if f.code == form.code then form :: rest else f :: register rest form

def codes (catalog : Catalog) : List String :=
  catalog.map (·.code)

def create? (catalog : Catalog) (code : String) (facts : Facts) (cause : Option ViewError) :
    Option ViewError :=
  (catalog.form? code).map fun form => form.fill facts cause

end Catalog
end Stencil
