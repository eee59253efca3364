import Stencil.Text.Basic

/-!
# Nodes

A view is a row of nodes. Conditionals and loops hold rows of nodes in turn.
Every node knows the line on which it begins, counted from one. Expressions are
kept as their texts.
-/

namespace Stencil

inductive Pattern where
  | name (name : String)
  /-- Keys, each with the name that is bound to its value. -/
  | object (entries : List (String × String))
  | array (names : List String)
deriving DecidableEq, Repr

structure Branch (α : Type) where
  condition : String
  line : Nat
  body : List α

inductive Node where
  | text (line : Nat) (text : String)
  | interpolation (line : Nat) (expression : String)
  /-- A dotted name that stays as it is written when it means nothing. -/
  | shorthand (line : Nat) (path : String)
  | declaration (line : Nat) (pattern : Pattern) (expression : String)
  | conditional (line : Nat) (branches : List (Branch Node)) (otherwise : Option (List Node))
  | loop (line : Nat) (item index collection : String) (body : List Node)
  | inclusion (line : Nat) (path : Text) (data : Option String)

namespace Node

def line : Node → Nat
  | text n _ => n
  | interpolation n _ => n
  | shorthand n _ => n
  | declaration n _ _ => n
  | conditional n _ _ => n
  | loop n _ _ _ _ => n
  | inclusion n _ _ => n

def isText : Node → Bool
  | text _ _ => true
  | _ => false

def anyDirective (nodes : List Node) : Bool :=
  nodes.any fun node => !node.isText

/-! # All nodes of a tree -/

mutual

/-- A node and all nodes inside it, in the order in which they begin. -/
def walk : Node → List Node
  | conditional n branches otherwise =>
      conditional n branches otherwise :: (walkBranches branches ++
        match otherwise with
        | some body => walkAll body
        | none => [])
  | loop n item index collection body => loop n item index collection body :: walkAll body
  | node => [node]

def walkAll : List Node → List Node
  | [] => []
  | node :: rest => walk node ++ walkAll rest

def walkBranches : List (Branch Node) → List Node
  | [] => []
  | branch :: rest => walkAll branch.body ++ walkBranches rest

end

/-- The expressions that a node itself holds, those of all arms first in a conditional. -/
def ownReferences : Node → List String
  | text _ _ => []
  | interpolation _ e => [e]
  | shorthand _ path => [path]
  | declaration _ _ e => [e]
  | conditional _ branches _ => branches.map (·.condition)
  | loop _ _ _ collection _ => [collection]
  | inclusion _ _ data => data.toList

def references (nodes : List Node) : List String :=
  (walkAll nodes).flatMap ownReferences

end Node
end Stencil
