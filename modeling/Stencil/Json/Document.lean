import Stencil.Value.Basic

/-!
# JSON documents

A document is the tree that a JSON text denotes. Objects keep their entries in
order. When a document is made from values its keys may be of any kind; a text
can only be written if each key has a text form.
-/

namespace Stencil

inductive Document where
  | null
  | bool (b : Bool)
  | int (n : Int)
  | float (x : Binary64)
  | str (s : Text)
  | list (items : List Document)
  | object (entries : List (Key × Document))

namespace Value

mutual

def ofDocument : Document → Value
  | .null => null
  | .bool b => bool b
  | .int n => int n
  | .float x => float x
  | .str s => str s
  | .list items => list (ofDocuments items)
  | .object entries => map (Entries.ofPairs (ofEntries entries))

def ofDocuments : List Document → List Value
  | [] => []
  | d :: rest => ofDocument d :: ofDocuments rest

def ofEntries : List (Key × Document) → List (Key × Value)
  | [] => []
  | (key, d) :: rest => (key, ofDocument d) :: ofEntries rest

end

end Value
end Stencil
