import Stencil.View.Directive

/-!
# Pieces

The text of a view falls into pieces from left to right: directives, and runs of
literal text between them. A piece keeps the characters it was made from, so
that the pieces together give back the text. The row ends early at the first
malformed directive.
-/

namespace Stencil

inductive Piece where
  | text (line : Nat) (source : List Char)
  | directive (line : Nat) (source : List Char) (meaning : Directive)
  | fault (line : Nat) (fault : StructureFault)
deriving DecidableEq, Repr

namespace Piece

def source : Piece → List Char
  | text _ s => s
  | directive _ s _ => s
  | fault _ _ => []

def pushText (line : Nat) (c : Char) : List Piece → List Piece
  | text _ s :: rest => text line (c :: s) :: rest
  | pieces => text line [c] :: pieces

def nextLine (line : Nat) (c : Char) : Nat :=
  if c == '\n' then line + 1 else line

/--
The pieces of a text that begins on a line. The first `skip` characters belong
to the directive before.
-/
def piecesFrom : Nat → Nat → List Char → List Piece
  | _, _, [] => []
  | line, skip + 1, c :: rest => piecesFrom (nextLine line c) skip rest
  | line, 0, c :: rest =>
      if c == '@' then
        match Directive.read? rest with
        | some (.ok (meaning, n)) =>
            directive line (c :: rest.take n) meaning :: piecesFrom line n rest
        | some (.error e) => [fault line e]
        | none => pushText line c (piecesFrom line 0 rest)
      else pushText line c (piecesFrom (nextLine line c) 0 rest)

/-- The pieces of a view. -/
def ofText (text : List Char) : List Piece :=
  piecesFrom 1 0 text

end Piece
end Stencil
