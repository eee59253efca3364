import Stencil.Text.Basic
import Stencil.Text.Ranges

/-!
# White space

One notion of white space serves the whole library: it separates tokens, is
trimmed from expressions, names and conditions, and is swallowed after a
declaration. It covers the separators of every script and the control
characters that have always been read as blanks.
-/

namespace Stencil
namespace Text

def blankRanges : Ranges :=
  [(9, 13), (28, 32), (133, 133), (160, 160), (5760, 5760), (8192, 8202), (8232, 8233),
    (8239, 8239), (8287, 8287), (12288, 12288)]

def isBlank (c : Char) : Bool :=
  blankRanges.has c

/-! # Trimming -/

def trimStart (cs : List Char) : List Char :=
  cs.dropWhile isBlank

def trimEnd (cs : List Char) : List Char :=
  (cs.reverse.dropWhile isBlank).reverse

def trim (cs : List Char) : List Char :=
  trimEnd (trimStart cs)

def strip (s : String) : String :=
  String.ofList (trim s.toList)

def stripped (t : Text) : Text :=
  let fromStart := t.points.dropWhile (CodePoint.isChar isBlank)
  ⟨(fromStart.reverse.dropWhile (CodePoint.isChar isBlank)).reverse⟩

def allBlank (cs : List Char) : Bool :=
  cs.all isBlank

def saysNothing (t : Text) : Bool :=
  t.points.all (CodePoint.isChar isBlank)

end Text
end Stencil
