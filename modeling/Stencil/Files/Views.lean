import Stencil.Files.Tree
import Stencil.View.Source

/-!
# Views in files

Every view is a file below a root directory, read as UTF-8. A link may not lead out
of the root. What is not there, or is no file, is a view that is not found; what
cannot be read as text is a view that cannot be read.
-/

namespace Stencil

namespace Text

def byteDigits (byte : UInt8) : String :=
  String.ofList (hexDigits 2 byte.toNat)

def ByteFault.text : ByteFault → String
  | start => "invalid start byte"
  | continuation => "invalid continuation byte"
  | ending => "unexpected end of data"

def DecodeError.place (e : DecodeError) : String :=
  if e.count == 1 then "byte 0x" ++ byteDigits e.byte ++ " in position " ++ toString e.position
  else "bytes in position " ++ toString e.position ++ "-" ++ toString (e.position + e.count - 1)

def DecodeError.text (e : DecodeError) : String :=
  "'utf-8' codec can't decode " ++ e.place ++ ": " ++ e.fault.text

def DecodeError.trouble (e : DecodeError) : Trouble :=
  .unreadable "UnicodeDecodeError" e.text none

def ofBytes (bytes : List UInt8) : Except DecodeError String :=
  (decode bytes).map fun cs => String.ofList (plainBreaks cs)

end Text

/-! # Troubles -/

namespace PathFault

def kind : PathFault → String
  | nul => "ValueError"
  | surrogate => "UnicodeEncodeError"
  | missing => "FileNotFoundError"
  | tooLong => "OSError"
  | circle => "RuntimeError"
  | occupied => "FileExistsError"
  | blocked => "NotADirectoryError"
  | endlessWay => "OSError"

def text : PathFault → String
  | nul => "embedded null byte"
  | surrogate => "surrogates not allowed"
  | missing => "No such file"
  | tooLong => "File name too long"
  | circle => "Symlink loop"
  | occupied => "File exists"
  | blocked => "Not a directory"
  | endlessWay => "Too many levels of symbolic links"

def trouble (fault : PathFault) : Trouble :=
  match fault with
  | missing => .missing fault.kind fault.text none
  | tooLong => .unreadable fault.kind fault.text none
  | fault => .other fault.kind fault.text

end PathFault

namespace FileTree

def asked (answer : Except PathFault α) : Except Trouble α :=
  answer.mapError PathFault.trouble

/-! # Views -/

def outsideError (path : Text) : ViewError :=
  ErrorForm.viewNotFound.fill
    [ ("path", .text path),
      ("detail", .text "The path resolves outside the views directory") ] none

/-- Reads the view of a path below a root. -/
def readView (tree : FileTree) (root : Location) (path : Text) : Except Trouble String := do
  let told : Facts := [("path", .text path)]
  let failed (trouble : Trouble) : Except Trouble String :=
    .error (.view (trouble.toError none told))
  let location ← asked (tree.resolve root path)
  if !root.isPrefixOf location then throw (.view (outsideError path))
  match tree.contentAt location with
  | .error fault => failed fault.trouble
  | .ok content =>
      match Text.ofBytes content with
      | .ok text => return text
      | .error e => failed e.trouble

def views (tree : FileTree) (root : Location) (viewsType : Text) : ViewSource where
  viewsType := viewsType
  read := tree.readView root

end FileTree
end Stencil
