import Stencil.Error.Form
import Stencil.Failure

/-!
# Troubles

What can go wrong while a view is found, read and rendered, and the view error
that each trouble becomes. Some failures of the host become none.
-/

namespace Stencil

inductive Trouble where
  /-- A trouble that is a view error already. -/
  | view (error : ViewError)
  /-- There is no file of that name, or none that can be read as a file. -/
  | missing (kind : String) (text : Text) (filename : Option Fact)
  /-- The file is there, but reading it failed. -/
  | unreadable (kind : String) (text : Text) (filename : Option Fact)
  | other (kind : String) (text : Text)
  /-- A failure that goes on past everything that would make an error of it. -/
  | failed (failure : Failure)
  /-- A loop is not followed any further; it may have no end. -/
  | unending

def Failure.trouble (failure : Failure) : Trouble :=
  match failure.told with
  | .ok text => .other failure.kind text
  | .error again => .failed again

namespace Trouble

def kind : Trouble → String
  | view _ => "ViewError"
  | missing kind _ _ => kind
  | unreadable kind _ _ => kind
  | other kind _ => kind
  | failed failure => failure.kind
  | unending => "Unending"

def text : Trouble → Text
  | view error => error.text
  | missing _ text _ => text
  | unreadable _ text _ => text
  | other _ text => text
  | failed failure => failure.message
  | unending => "not followed any further"

def pathFact (filename : Option Fact) : Fact :=
  .text (((Fact.said filename).map Fact.shown).getD "unknown")

/-- The code of the error that a trouble becomes, and what the trouble itself tells. -/
def classify (trouble : Trouble) : String × Facts :=
  let detail := Fact.text (trouble.kind ++ ": " ++ trouble.text)
  match trouble with
  | view error => (error.code, [])
  | missing _ _ filename => ("VIEW_NOT_FOUND", [("path", pathFact filename)])
  | unreadable _ _ filename =>
      ("VIEW_READ_FAILED", [("path", pathFact filename), ("detail", detail)])
  | _ => ("INTERNAL_ERROR", [("detail", detail), ("error_type", .text trouble.kind)])

/-- Everything known about a trouble: what is told from outside goes first. -/
def facts (trouble : Trouble) (view line : Option Fact) (told : Facts) : Facts :=
  let located := Facts.given "view" (Fact.said view) ++ Facts.given "line" (Fact.said line)
  Facts.merge (Facts.merge trouble.classify.2 told) located

/-- The view error of a trouble; nothing if the catalog has lost the code. -/
def toError? (catalog : Catalog) (trouble : Trouble) (view line : Option Fact) (told : Facts) :
    Option ViewError :=
  match trouble with
  | .view error => some (error.within view line)
  | trouble => catalog.create? trouble.classify.1 (trouble.facts view line told) none

def form : Trouble → ErrorForm
  | missing _ _ _ => .viewNotFound
  | unreadable _ _ _ => .viewReadFailed
  | _ => .internalError

def toError (trouble : Trouble) (view : Option Fact) (told : Facts) : ViewError :=
  match trouble with
  | .view error => error.within view none
  | trouble => trouble.form.fill (trouble.facts view none told) none

end Trouble

/-! # What gets out -/

/--
What comes of a render that gives no text: a view error, a failure that became none, or nothing
at all as far as the render is followed.
-/
inductive Escape where
  | view (error : ViewError)
  | failure (failure : Failure)
  | unending

/-- What gets out of a render of a view that a trouble has stopped. -/
def Trouble.escape (trouble : Trouble) (view : Option Fact) : Escape :=
  match trouble with
  | .failed failure => .failure failure
  | .unending => .unending
  | trouble => .view (trouble.toError view [])

end Stencil
