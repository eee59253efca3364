/-!
# Classes of characters

A class of characters is given by the ranges of code points it covers, in
ascending order and with both ends included.
-/

namespace Stencil
namespace Text

abbrev Ranges : Type := List (Nat × Nat)

def Ranges.covers (ranges : Ranges) (code : Nat) : Bool :=
  ranges.any fun range => range.1 ≤ code && code ≤ range.2

def Ranges.has (ranges : Ranges) (c : Char) : Bool :=
  ranges.covers c.toNat

end Text
end Stencil
