import Stencil.Error.Form
import Stencil.View.Piece

/-!
# Blocks

Pieces become nodes, and the pieces between the opening and the end of a block
become the body of its node. Open blocks wait on a stack, innermost first, each
with the nodes that stand before it.
-/

namespace Stencil

/-- Why a text is no view, and the line of the directive at fault. -/
structure StructureError where
  fault : StructureFault
  line : Nat
deriving DecidableEq, Repr

/-- An open block. Nodes and arms are kept latest first. -/
inductive OpenBlock where
  /-- In an arm with a condition. -/
  | arm (line : Nat) (before : List Node) (done : List (Branch Node)) (condition : String)
      (conditionLine : Nat)
  /-- In the arm without a condition. -/
  | otherwise (line : Nat) (before : List Node) (done : List (Branch Node))
  | loop (line : Nat) (before : List Node) (item index collection : String)

namespace OpenBlock

def line : OpenBlock → Nat
  | arm n _ _ _ _ => n
  | otherwise n _ _ => n
  | loop n _ _ _ _ => n

def opener : OpenBlock → String
  | arm _ _ _ _ _ => "@if"
  | otherwise _ _ _ => "@if"
  | loop _ _ _ _ _ => "@each"

/-- The node of a block that ends with a body, and the nodes before it. -/
def finish (body : List Node) : OpenBlock → List Node
  | arm n before done condition conditionLine =>
      .conditional n (⟨condition, conditionLine, body⟩ :: done).reverse none :: before
  | otherwise n before done => .conditional n done.reverse (some body) :: before
  | loop n before item index collection => .loop n item index collection body :: before

end OpenBlock

/-- What is being built: the open blocks, and the nodes of the innermost body, latest first. -/
structure Builder where
  blocks : List OpenBlock
  nodes : List Node

namespace Builder

def empty : Builder := ⟨[], []⟩

def push (b : Builder) (node : Node) : Builder :=
  { b with nodes := node :: b.nodes }

def elif (b : Builder) (line : Nat) (condition : String) : Except StructureFault Builder :=
  match b.blocks with
  | .arm n before done c cl :: outer =>
      if condition.isEmpty then .error (.noCondition "@elif")
      else .ok ⟨.arm n before (⟨c, cl, b.nodes.reverse⟩ :: done) condition line :: outer, []⟩
  | .otherwise _ _ _ :: _ => .error .elifAfterElse
  | _ => .error .strayElif

def otherwise (b : Builder) : Except StructureFault Builder :=
  match b.blocks with
  | .arm n before done c cl :: outer =>
      .ok ⟨.otherwise n before (⟨c, cl, b.nodes.reverse⟩ :: done) :: outer, []⟩
  | .otherwise _ _ _ :: _ => .error .secondElse
  | .loop _ _ _ _ _ :: _ => .error .elseInLoop
  | [] => .error .strayElse

def close (b : Builder) : Except StructureFault Builder :=
  match b.blocks with
  | block :: outer => .ok ⟨outer, block.finish b.nodes.reverse⟩
  | [] => .error .strayEnd

def addDirective (b : Builder) (line : Nat) : Directive → Except StructureFault Builder
  | .interpolation e => .ok (b.push (.interpolation line e))
  | .shorthand path => .ok (b.push (.shorthand line path))
  | .declaration pattern e => .ok (b.push (.declaration line pattern e))
  | .inclusion path data => .ok (b.push (.inclusion line path data))
  | .openIf condition => .ok ⟨.arm line b.nodes [] condition line :: b.blocks, []⟩
  | .openEach item index collection =>
      .ok ⟨.loop line b.nodes item index collection :: b.blocks, []⟩
  | .elif condition => b.elif line condition
  | .otherwise => b.otherwise
  | .close => b.close

def addPiece (b : Builder) : Piece → Except StructureError Builder
  | .text line s => .ok (b.push (.text line (String.ofList s)))
  | .directive line _ meaning =>
      match b.addDirective line meaning with
      | .ok next => .ok next
      | .error fault => .error ⟨fault, line⟩
  | .fault line fault => .error ⟨fault, line⟩

def result (b : Builder) : Except StructureError (List Node) :=
  match b.blocks with
  | [] => .ok b.nodes.reverse
  | block :: _ => .error ⟨.unclosedBlock block.opener, block.line⟩

end Builder

/-! # Views -/

namespace View

/-- Reads the text of a view. -/
def parse (text : String) : Except StructureError (List Node) := do
  let b ← (Piece.ofText text.toList).foldlM Builder.addPiece Builder.empty
  b.result

def structureError (e : StructureError) (view : Option Text) : ViewError :=
  ErrorForm.parseStructure.fill
    (Facts.given "view" (view.map .text) ++
      [("detail", .text e.fault.message), ("line", .number e.line)]) none

def complaints (text : String) : List String :=
  match parse text with
  | .ok _ => []
  | .error e => ["line " ++ toString e.line ++ ": " ++ e.fault.message]

end View
end Stencil
