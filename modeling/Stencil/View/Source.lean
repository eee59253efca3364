import Stencil.Error.Trouble
import Stencil.View.Block
import Stencil.View.Path

/-!
# Sources of views

A source knows the type of its views and answers to their paths with their texts.
The plainest source holds the texts in memory.
-/

namespace Stencil

structure ViewSource where
  /-- The extension of views that are named without one. -/
  viewsType : Text
  read : Text → Except Trouble String

/-- Reads a view and parses it. -/
def ViewSource.parsed (source : ViewSource) (path : Text) : Except Trouble (List Node) := do
  let text ← source.read path
  match View.parse text with
  | .ok nodes => .ok nodes
  | .error e => .error (.view (View.structureError e (some path)))

/-! # Views in memory -/

abbrev MemoryViews : Type := List (Text × String)

namespace MemoryViews

def text? (views : MemoryViews) (path : Text) : Option String :=
  (views.find? fun view => view.1 == path).map (·.2)

def set : MemoryViews → Text → String → MemoryViews
  | [], path, text => [(path, text)]
  | (p, t) :: rest, path, text =>
      if p == path then (path, text) :: rest else (p, t) :: set rest path text

def add (views : MemoryViews) (viewsType name : Text) (text : String) :
    Except ViewError (Text × MemoryViews) := do
  let path ← ViewPath.resolve viewsType name none
  return (path, views.set path text)

def ofList (viewsType : Text) (named : List (String × String)) :
    Except ViewError MemoryViews :=
  named.foldlM (fun views view => do return (← views.add viewsType view.1 view.2).2) []

def source (viewsType : Text) (views : MemoryViews) : ViewSource where
  viewsType := viewsType
  read path :=
    match views.text? path with
    | some text => .ok text
    | none => .error (.view (ErrorForm.viewNotFound.fill [("path", .text path)] none))

end MemoryViews
end Stencil
