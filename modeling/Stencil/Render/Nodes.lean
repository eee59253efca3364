import Stencil.Render.State

/-!
# Rendering nodes

Nodes are rendered one after the other in a scope. Branches share the scope they
stand in; every round of a loop has a scope of its own. How an include is rendered
is left open here.
-/

namespace Stencil

structure Inclusion where
  line : Nat
  path : Text
  data : Option String
  scope : Nat

/-! # Declarations -/

/-- What a declared name is bound to when its pattern meets a value. -/
inductive Part where
  | whole
  | key (name : String)
  | position (index : Nat)
deriving DecidableEq, Repr

def Pattern.parts : Pattern → List (String × Part)
  | .name target => [(target, .whole)]
  | .object entries => entries.map fun entry => (entry.2, .key entry.1)
  | .array targets => targets.zipIdx.map fun target => (target.1, .position target.2)

/-- A part of a value; only lists have positions. -/
def Part.take (σ : Store) (value : Value) : Part → Except Failure Value
  | .whole => .ok value
  | .key name => σ.member value (.str name)
  | .position index =>
      if σ.isSequence value then σ.member value (.int index) else .ok .undefined

def bindPart (scope : Nat) (value : Value) (name : String) (part : Part) : Rendering Unit :=
  fun s =>
    match part.take s.store value with
    | .ok found => (.ok (), { s with store := s.store.bind scope (.str name) found })
    | .error failure => (.error failure.trouble, s)

/--
Binds the parts of a value one after the other. A part is taken when its turn
comes, so where the value is the scope itself, later parts see earlier names.
-/
def bindParts (scope : Nat) (value : Value) : List (String × Part) → Rendering Unit
  | [] => return ()
  | (name, part) :: rest => do
      bindPart scope value name part
      bindParts scope value rest

/-! # Loops -/

def Entries.ofNamed (named : List (String × Value)) : Entries Value :=
  named.map fun entry => (.str entry.1, entry.2)

/-- One round of a loop. -/
structure Round where
  bindings : Entries Value
  receiver : Value

namespace Round

def named (item index : String) (i count : Nat) : Option Key × Value → List (String × Value)
  | (none, value) =>
      [(item, value), (index, .int i), ("isFirst", .bool (i == 0)),
        ("isLast", .bool (i + 1 == count))]
  | (some key, value) =>
      [(item, value), (index, .int i), ("key", .ofKey key), ("value", value),
        ("isFirst", .bool (i == 0)), ("isLast", .bool (i + 1 == count))]

def ofElement (item index : String) (count : Nat) (x : (Option Key × Value) × Nat) : Round where
  bindings := .ofNamed (named item index x.2 count x.1)
  receiver := x.1.2

end Round

/-- A loop between two of its rounds. -/
structure Loop where
  item : String
  index : String
  /-- How many elements there were when the loop began. -/
  count : Nat
  /-- The place of the element that comes next. -/
  turn : Nat
  /-- A list, as it is when its items are taken; or the entries that a mapping had at first. -/
  collection : Value

namespace Loop

/-- A loop over a value; one over what is neither a list nor a mapping has no rounds. -/
def begin (σ : Store) (item index : String) (collection : Value) : Loop where
  item := item
  index := index
  count := (σ.elements collection).length
  turn := 0
  collection :=
    match σ.shape collection with
    | .list _ => collection
    | .map entries => .map entries
    | .plain => .undefined

def next? (σ : Store) (loop : Loop) : Option (Round × Loop) :=
  (σ.elements loop.collection)[loop.turn]?.map fun element =>
    (.ofElement loop.item loop.index loop.count (element, loop.turn),
      { loop with turn := loop.turn + 1 })

end Loop

def nextRound (loop : Loop) : Rendering (Option (Round × Loop)) :=
  Rendering.onStore fun σ => (loop.next? σ, σ)

def openRound (scope : Nat) (round : Round) : Rendering Nat :=
  Rendering.onStore fun σ => σ.child scope round.bindings (some round.receiver)

/--
Renders the rounds of a loop, each in a scope of its own, as long as there are elements and
as far as the loop is followed.
-/
def renderRounds (body : Nat → Rendering Text) (scope : Nat) : Nat → Loop → Rendering Text
  | 0, loop => do
      match ← nextRound loop with
      | none => return ""
      | some _ => throw .unending
  | left + 1, loop => do
      match ← nextRound loop with
      | none => return ""
      | some (round, later) => do
          let inner ← openRound scope round
          let first ← body inner
          let others ← renderRounds body scope left later
          return first ++ others

/-! # Nodes -/

mutual

def renderNode (host : Host) (enter : Inclusion → Rendering Text) (scope : Nat) :
    Node → Rendering Text
  | .text _ text => return text
  | .interpolation _ source => do
      return (← Rendering.textOf host scope source).getD ""
  | .shorthand _ path => do
      return (← Rendering.textOf host scope path).getD ("@" ++ path)
  | .declaration _ pattern source => do
      let value ← Rendering.valueOf host scope source
      bindParts scope value pattern.parts
      return ""
  | .conditional _ branches otherwise => do
      match ← renderBranches host enter scope branches with
      | some text => return text
      | none =>
          match otherwise with
          | some body => renderAll host enter scope body
          | none => return ""
  | .loop _ item index source body => do
      let collection ← Rendering.valueOf host scope source
      let loop ← Rendering.onStore fun σ => (Loop.begin σ item index collection, σ)
      renderRounds (fun inner => renderAll host enter inner body) scope
        (loop.count + host.patience) loop
  | .inclusion line path data => enter ⟨line, path, data, scope⟩

def renderAll (host : Host) (enter : Inclusion → Rendering Text) (scope : Nat) :
    List Node → Rendering Text
  | [] => return ""
  | node :: rest => do
      let first ← renderNode host enter scope node
      let others ← renderAll host enter scope rest
      return first ++ others

def renderBranches (host : Host) (enter : Inclusion → Rendering Text) (scope : Nat) :
    List (Branch Node) → Rendering (Option Text)
  | [] => return none
  | branch :: rest => do
      let condition ← Rendering.valueOf host scope branch.condition
      if condition.truthy then
        let text ← renderAll host enter scope branch.body
        return some text
      else renderBranches host enter scope rest

end

end Stencil
