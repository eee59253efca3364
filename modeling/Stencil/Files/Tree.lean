import Stencil.Text.Utf8

/-!
# File trees

A file tree holds files, directories and links below a root directory, and knows in
which directory paths begin. A directory is there if something in it is. A link
leads wherever its target leads, seen from the directory that the link stands in.

Names of files are bytes. A path is a text whose parts between slashes are names; some
texts are no paths, and some paths are not followed.
-/

namespace Stencil

abbrev FileName : Type := List UInt8

abbrev Location : Type := List FileName

inductive FileEntry where
  | file (content : List UInt8)
  | directory
  | link (target : Text)
deriving DecidableEq, Repr

structure FileTree where
  /-- The directory in which paths begin that do not begin with a slash. -/
  home : Location
  entries : List (Location × FileEntry)

inductive PathFault where
  /-- A NUL, which would end the path. -/
  | nul
  /-- A surrogate that stands for no byte. -/
  | surrogate
  /-- Nothing is there, or a way leads through something that is no directory. -/
  | missing
  | tooLong
  /-- Links that run in a circle. -/
  | circle
  /-- Something else stands where a directory is to be made. -/
  | occupied
  /-- Something else stands on the way to where a directory is to be made. -/
  | blocked
  /-- Links that run in a circle on the way to where a directory is to be made. -/
  | endlessWay
deriving DecidableEq, Repr

namespace FileTree

/-- What is at a location, not following a link there. -/
def entry? (tree : FileTree) (location : Location) : Option FileEntry :=
  match tree.entries.find? fun entry => entry.1 == location with
  | some entry => some entry.2
  | none =>
      if location.isPrefixOf tree.home || tree.entries.any (fun e => location.isPrefixOf e.1) then
        some .directory
      else none

def set (tree : FileTree) (location : Location) (entry : FileEntry) : FileTree :=
  { tree with
    entries := tree.entries.filter (fun e => e.1 != location) ++ [(location, entry)] }

/-! # Paths -/

/-- The parts of a path between slashes, leaving out the ones that stay in place. -/
def parts (path : Text) : List Text :=
  ((path.points.splitOnP (· == .char '/')).map Text.mk).filter fun part => part != "" && part != "."

def nameOf (part : Text) : Except PathFault FileName :=
  match part.bytes? with
  | none => .error .surrogate
  | some bytes => if bytes.contains 0 then .error .nul else .ok bytes

def names (path : Text) : Except PathFault (List FileName) :=
  (parts path).mapM nameOf

def parentName : FileName := [46, 46]

def isAbsolute (path : Text) : Bool :=
  path.points.head? == some '/'

def origin (start : Location) (path : Text) : Location :=
  if isAbsolute path then [] else start

/-- More links than this are taken to run in a circle. -/
def maxLinks : Nat := 255

def maxName : Nat := 255

def maxPath : Nat := 4095

def pathLength (location : Location) : Nat :=
  location.foldl (fun n name => n + name.length + 1) 0

/-- The names of a link's target; a target that is no path has none. -/
def targetNames (target : Text) : List FileName :=
  (names target).toOption.getD []

/--
Walks from a directory along names, following links. A careful walk goes on from
directories only, and along names of a fair length; another one takes what is not
there as a name like any other.
-/
def walk (tree : FileTree) (careful : Bool) (links : Nat) (here : Location) :
    List FileName → Except PathFault Location
  | [] => .ok here
  | name :: rest =>
      if careful && tree.entry? here != some .directory then .error .missing
      else if name == parentName then walk tree careful links here.dropLast rest
      else if careful && maxName < name.length then .error .tooLong
      else
        match tree.entry? (here ++ [name]) with
        | some (.link target) =>
            match links with
            | 0 => .error .circle
            | fewer + 1 =>
                walk tree careful fewer (origin here target) (targetNames target ++ rest)
        | _ => walk tree careful links (here ++ [name]) rest
termination_by names => (links, names.length)

def resolve (tree : FileTree) (start : Location) (path : Text) : Except PathFault Location := do
  tree.walk false maxLinks (origin start path) (← names path)

/-- What a path leads to, if anything is there. A path that is too long is not followed. -/
def find? (tree : FileTree) (path : Text) : Except PathFault (Option FileEntry) :=
  match names path with
  | .error _ => .ok none
  | .ok names =>
      if maxPath < (path.bytes?.getD []).length then .error .tooLong
      else
        match tree.walk true maxLinks (origin tree.home path) names with
        | .ok location => .ok (tree.entry? location)
        | .error .tooLong => .error .tooLong
        | .error _ => .ok none

def isThere (tree : FileTree) (path : Text) : Except PathFault Bool :=
  (tree.find? path).map Option.isSome

def isDirectory (tree : FileTree) (path : Text) : Except PathFault Bool :=
  (tree.find? path).map (· == some .directory)

def isPlainFile (tree : FileTree) (path : Text) : Except PathFault Bool :=
  (tree.find? path).map fun found => found.isSome && found != some .directory

/-- The content of the file at a location that no link leads away from. -/
def contentAt (tree : FileTree) (location : Location) : Except PathFault (List UInt8) :=
  if maxPath < pathLength location then .error .tooLong
  else do
    match tree.entry? (← tree.walk true 0 [] location) with
    | some (.file content) => return content
    | _ => throw .missing

/-! # Changes -/

def write (tree : FileTree) (path : Text) (content : List UInt8) : FileTree :=
  match tree.resolve tree.home path with
  | .ok location => tree.set location (.file content)
  | .error _ => tree

/-- Where a link leads when a directory is wanted there; `isLast` if no name comes after it. -/
def linkedDirectory (tree : FileTree) (here : Location) (target : Text) (isLast : Bool) :
    Except PathFault Location :=
  match tree.walk true maxLinks (origin here target) (targetNames target) with
  | .ok location =>
      match tree.entry? location with
      | some .directory => .ok location
      | some _ => .error (if isLast then .occupied else .blocked)
      | none => .error .occupied
  | .error .circle => .error (if isLast then .occupied else .endlessWay)
  | .error .tooLong => .error (if isLast then .occupied else .tooLong)
  | .error _ => .error .occupied

def makeAlong (tree : FileTree) (here : Location) :
    List FileName → Except PathFault FileTree
  | [] => .ok tree
  | name :: rest =>
      if name == parentName then makeAlong tree here.dropLast rest
      else if maxName < name.length then .error .tooLong
      else
        let there := here ++ [name]
        match tree.entry? there with
        | none => makeAlong (tree.set there .directory) there rest
        | some .directory => makeAlong tree there rest
        | some (.file _) => .error (if rest.isEmpty then .occupied else .blocked)
        | some (.link target) =>
            match tree.linkedDirectory here target rest.isEmpty with
            | .ok location => makeAlong tree location rest
            | .error fault => .error fault

def makeDirectory (tree : FileTree) (path : Text) : Except PathFault FileTree := do
  tree.makeAlong (origin tree.home path) (← names path)

end FileTree
end Stencil
