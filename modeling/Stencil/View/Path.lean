import Stencil.Error.Form
import Stencil.Text.Blank

/-!
# View paths

A view is known by its path below the root of all views: names of directories
and of the view itself with slashes between them. A name as it is written in an
include or given by the application resolves to a path. Names that begin with a
dot component are taken from the directory of the including view, all others
from the root. A name that leads out of the root, or to the root itself, resolves
to nothing. The type of views is added as an extension if there is none.
-/

namespace Stencil
namespace ViewPath

/-! # Components -/

def slash : CodePoint := '/'

def dot : CodePoint := '.'

abbrev Component : Type := List CodePoint

def components (points : List CodePoint) : List Component :=
  points.splitOnP (· == slash)

def parent : Component := [dot, dot]

/--
Adds a component to a walk, which holds the components so far, last first. A
parent component takes back the one before it, if it can.
-/
def step (rooted : Bool) (walked : List Component) (part : Component) : List Component :=
  if part.isEmpty || part == [dot] then walked
  else if part == parent then
    match walked with
    | [] => if rooted then [] else [parent]
    | last :: before => if last == parent then parent :: walked else before
  else part :: walked

/-- How many slashes the normal form of a text begins with; two stay two. -/
def rootSlashes (points : List CodePoint) : Nat :=
  let n := (points.takeWhile (· == slash)).length
  if n == 2 then 2 else min n 1

/-- A path in normal form. -/
structure Normal where
  slashes : Nat
  parts : List Component
deriving DecidableEq, Repr

def normalize (points : List CodePoint) : Normal where
  slashes := rootSlashes points
  parts := ((components points).foldl (step (rootSlashes points != 0)) []).reverse

/-- Whether a normal path stays below the root of all views. -/
def Normal.isInside (path : Normal) : Bool :=
  path.slashes != 0 ||
    match path.parts with
    | [] => false
    | first :: _ => first != parent

def Normal.points (path : Normal) : List CodePoint :=
  List.replicate path.slashes slash ++ [slash].intercalate path.parts

/-! # Extensions -/

/-- Whether a name has a dot that something other than dots stands before. -/
def hasExtension (part : Component) : Bool :=
  let beforeLastDot := (part.reverse.dropWhile (· != dot)).drop 1
  beforeLastDot.any (· != dot)

/-! # Resolution -/

/-- The text up to the last slash, without the slashes at its end unless it has nothing else. -/
def directory (points : List CodePoint) : List CodePoint :=
  let upToSlash := points.reverse.dropWhile (· != slash)
  let bare := upToSlash.dropWhile (· == slash)
  if bare.isEmpty then upToSlash.reverse else bare.reverse

def join (directory name : List CodePoint) : List CodePoint :=
  if directory.isEmpty || directory.getLast? == some slash then directory ++ name
  else directory ++ slash :: name

def clean (name : Text) : Text :=
  Text.stripped ⟨name.points.map fun (p : CodePoint) => if p == '\\' then slash else p⟩

def isRelative (name : List CodePoint) : Bool :=
  List.isPrefixOf [dot, slash] name || List.isPrefixOf [dot, dot, slash] name

/-- The text whose normal form is the path of a cleaned name. -/
def located (name : List CodePoint) (relativeTo : Option Text) : List CodePoint :=
  match Text.said relativeTo, isRelative name with
  | some base, true => join (directory base.points) name
  | _, _ => name.dropWhile (· == slash)

def withExtension (viewsType : Text) (path : Normal) : List CodePoint :=
  if hasExtension ((path.parts.getLast?).getD []) then path.points
  else path.points ++ dot :: viewsType.points

/-- The path that a name resolves to, unless it leaves the views. -/
def resolve? (viewsType name : Text) (relativeTo : Option Text) : Option Text :=
  let path := normalize (located (clean name).points relativeTo)
  if path.isInside then some ⟨withExtension viewsType path⟩ else none

def outsideError (name : Text) : ViewError :=
  ErrorForm.viewNotFound.fill
    [ ("path", .text (clean name)),
      ("detail", .text "The path resolves outside the views directory") ] none

def resolve (viewsType name : Text) (relativeTo : Option Text) : Except ViewError Text :=
  match resolve? viewsType name relativeTo with
  | some path => .ok path
  | none => .error (outsideError name)

/-- A type of views without the dots before it. -/
def plainType (viewsType : Text) : Text :=
  ⟨viewsType.points.dropWhile (· == dot)⟩

end ViewPath
end Stencil
