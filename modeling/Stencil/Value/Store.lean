import Stencil.Value.Basic

/-!
# The store

A render works in a tree of scopes. The root stands over the data of the caller,
which is never written to. A scope sees the bindings of the scopes around it as
they are now, and may hide them; it writes to its own bindings only. The helpers
lie behind all bindings.

The store also holds the containers that are shared: that may contain themselves, or
change while a render goes on. It knows what has been called so far.
-/

namespace Stencil

/-- The contents of a shared container. -/
inductive Container where
  | list (items : List Value)
  | map (entries : Entries Value)

/-- What becomes of a container: a list stays a list, and a mapping a mapping. -/
def Container.become : Container → Container → Container
  | .list _, .list items => .list items
  | .map _, .map entries => .map entries
  | container, _ => container

structure Scope where
  /-- The scopes around this one, nearest first. -/
  outer : List Nat
  own : Entries Value
  /-- What `this` means here, unless it means the scope itself. -/
  receiver : Option Value

/-- One call of a function, with its arguments. -/
structure Invocation where
  function : Callable
  args : List Value

structure Store where
  data : Entries Value
  helpers : List (String × Value)
  scopes : Array Scope
  shared : Array Container
  /-- The next mark of a value that is not a number. -/
  nextMark : Nat
  /-- The calls so far, the latest first. -/
  calls : List Invocation

namespace Store

def ofData (data : Entries Value) (helpers : List (String × Value)) : Store where
  data := data
  helpers := helpers
  scopes := #[⟨[], [], none⟩]
  shared := #[]
  nextMark := 1
  calls := []

/-! # Scopes -/

def own (σ : Store) (place : Nat) : Entries Value :=
  match σ.scopes[place]? with
  | some scope => scope.own
  | none => []

def outer (σ : Store) (place : Nat) : List Nat :=
  match σ.scopes[place]? with
  | some scope => scope.outer
  | none => []

def path (σ : Store) (place : Nat) : List Nat :=
  place :: σ.outer place

/-- The value bound to a key: in the nearest scope that binds it, else in the data. -/
def bound? (σ : Store) (place : Nat) (key : Key) : Option Value :=
  match (σ.path place).findSome? fun p => (σ.own p).get? key with
  | some value => some value
  | none => σ.data.get? key

def helper? (σ : Store) (name : String) : Option Value :=
  (σ.helpers.find? fun entry => entry.1 == name).map (·.2)

/-- What a name means in a scope. -/
def lookup (σ : Store) (place : Nat) (name : String) : Value :=
  match σ.bound? place (.str name) with
  | some value => value
  | none => (σ.helper? name).getD .undefined

/-- What a key of any kind means in a scope; helpers answer to names only. -/
def lookupKey (σ : Store) (place : Nat) (key : Key) : Value :=
  match key with
  | .str text =>
      match text.string? with
      | some name => σ.lookup place name
      | none => (σ.bound? place key).getD .undefined
  | key => (σ.bound? place key).getD .undefined

/--
All bindings seen from a scope. They come in the order in which a walk from the
data inwards first meets their keys, with the value of the nearest scope.
-/
def bindings (σ : Store) (place : Nat) : Entries Value :=
  (σ.path place).foldr (fun p all => Entries.merge all (σ.own p)) (Entries.merge [] σ.data)

def receiver (σ : Store) (place : Nat) : Value :=
  match σ.scopes[place]? with
  | some scope => scope.receiver.getD (.scope place)
  | none => .scope place

/-- Opens a scope inside another and returns its place. -/
def child (σ : Store) (place : Nat) (bindings : Entries Value) (receiver : Option Value) :
    Nat × Store :=
  (σ.scopes.size,
    { σ with scopes := σ.scopes.push ⟨σ.path place, Entries.ofPairs bindings, receiver⟩ })

def bind (σ : Store) (place : Nat) (key : Key) (value : Value) : Store :=
  { σ with scopes := σ.scopes.modify place fun scope =>
      { scope with own := scope.own.put key value } }

/-! # Fresh values -/

/-- The result of an operation as a value; one that is not a number gets a mark of its own. -/
def keep (σ : Store) (result : Number) : Value × Store :=
  match result with
  | .float (.nan _) => (.float (.nan σ.nextMark), { σ with nextMark := σ.nextMark + 1 })
  | result => (.ofNumber result, σ)

def record (σ : Store) (call : Invocation) : Store :=
  { σ with calls := call :: σ.calls }

def timesCalled (σ : Store) (function : Callable) (argCount : Nat) : Nat :=
  σ.calls.countP fun call => call.function == function && call.args.length == argCount

/-! # Containers -/

def rewrite (σ : Store) (changes : List (Nat × Container)) : Store :=
  let shared := changes.foldl (fun shared change =>
    shared.modify change.1 fun container => container.become change.2) σ.shared
  { σ with shared := shared }

inductive Shape where
  | list (items : List Value)
  | map (entries : Entries Value)
  | plain

/-- The contents of a value that is a container, wherever they are kept. -/
def shape (σ : Store) : Value → Shape
  | .list items => .list items
  | .map entries => .map entries
  | .jsonTools => .map Value.jsonToolEntries
  | .shared place =>
      match σ.shared[place]? with
      | some (.list items) => .list items
      | some (.map entries) => .map entries
      | none => .plain
  | .scope place => .map (σ.bindings place)
  | _ => .plain

def entries? (σ : Store) (value : Value) : Option (Entries Value) :=
  match σ.shape value with
  | .map entries => some entries
  | _ => none

def items? (σ : Store) (value : Value) : Option (List Value) :=
  match σ.shape value with
  | .list items => some items
  | _ => none

/-- The elements that a loop finds in a value, each with its key if the value is a mapping. -/
def elements (σ : Store) (collection : Value) : List (Option Key × Value) :=
  match σ.shape collection with
  | .list items => items.map fun item => (none, item)
  | .map entries => entries.map fun entry => (some entry.1, entry.2)
  | .plain => []

def isMapping (σ : Store) (value : Value) : Bool :=
  (σ.entries? value).isSome

def isSequence (σ : Store) (value : Value) : Bool :=
  (σ.items? value).isSome

def typeName (σ : Store) : Value → String
  | .undefined => "UndefinedType"
  | .null => "NoneType"
  | .bool _ => "bool"
  | .int _ => "int"
  | .float _ => "float"
  | .str _ => "str"
  | .list _ => "list"
  | .map _ => "dict"
  | .callable _ => "function"
  | .jsonTools => "mappingproxy"
  | .host _ type _ _ => type
  | .shared place =>
      match σ.shared[place]? with
      | some (.map _) => "dict"
      | _ => "list"
  | .scope _ => "RenderContext"

end Store

/-! # Places in the store -/

/-- A place in the store that holds a container. -/
inductive Place where
  | shared (place : Nat)
  | scope (place : Nat)
deriving DecidableEq, Repr

def Store.contents (σ : Store) : Place → Value
  | .shared place =>
      match σ.shape (.shared place) with
      | .list items => .list items
      | .map entries => .map entries
      | .plain => .null
  | .scope place => .map (σ.bindings place)

def Store.placeCount (σ : Store) : Nat :=
  σ.shared.size + σ.scopes.size

end Stencil
