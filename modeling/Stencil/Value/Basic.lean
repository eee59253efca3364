import Stencil.Number.Arithmetic

/-!
# Values

What views compute with. Most values are trees. Two kinds of value point into
the store instead of holding their contents: a shared container, which may
contain itself, and a scope of names.
-/

namespace Stencil

/-! # Functions that views can call -/

inductive Builtin where
  | json
  | length
  | default
  | upper
  | lower
  | escape
  | stringify
  | parse
deriving DecidableEq, Repr

/--
A function is known by its name. The host application gives the behaviour of
its own functions; some of them are handed the scope of the call.
-/
inductive Callable where
  | builtin (function : Builtin)
  | host (name : String) (takesScope : Bool)
deriving DecidableEq, Repr

/-! # Keys of mappings -/

inductive Key where
  | undefined
  | null
  | bool (b : Bool)
  | int (n : Int)
  | float (x : Binary64)
  | str (s : Text)
  | callable (f : Callable)
deriving DecidableEq

namespace Key

def number? : Key → Option Number
  | bool b => some (.int (if b then 1 else 0))
  | int n => some (.int n)
  | float x => some (.float x)
  | _ => none

/-- Keys that find the same entry: numbers by their value, other keys by themselves. -/
def same (a b : Key) : Bool :=
  match a.number?, b.number? with
  | some x, some y => x.equal y || a == b
  | none, none => a == b
  | _, _ => false

end Key

/-! # Ordered entries -/

/-- Entries of a mapping in the order in which their keys first came. -/
abbrev Entries (α : Type) : Type := List (Key × α)

namespace Entries

def get? (entries : Entries α) (key : Key) : Option α :=
  (entries.find? fun entry => entry.1.same key).map (·.2)

def has (entries : Entries α) (key : Key) : Bool :=
  entries.any fun entry => entry.1.same key

/-- Sets the value of a key: in place if the key is there, at the end if it is new. -/
def put : Entries α → Key → α → Entries α
  | [], key, value => [(key, value)]
  | (k, v) :: rest, key, value =>
      if k.same key then (k, value) :: rest else (k, v) :: put rest key value

def merge (entries more : Entries α) : Entries α :=
  more.foldl (fun all entry => all.put entry.1 entry.2) entries

/-- The entries of a row of pairs: a key that is repeated keeps its place and its last value. -/
def ofPairs (pairs : Entries α) : Entries α :=
  merge [] pairs

def keys (entries : Entries α) : List Key :=
  entries.map (·.1)

end Entries

/-! # Values -/

inductive Value where
  | undefined
  | null
  | bool (b : Bool)
  | int (n : Int)
  | float (x : Binary64)
  | str (s : Text)
  | list (items : List Value)
  | map (entries : List (Key × Value))
  | callable (f : Callable)
  /-- The built-in mapping `JSON`. -/
  | jsonTools
  /-- An object from outside, known by its number, with the name of its type and its text. -/
  | host (id : Nat) (type text : String) (attributes : List (String × Value))
  /-- A container that lives in the store. -/
  | shared (place : Nat)
  /-- A scope that lives in the store. -/
  | scope (place : Nat)

namespace Value

def number? : Value → Option Number
  | bool b => some (.int (if b then 1 else 0))
  | int n => some (.int n)
  | float x => some (.float x)
  | _ => none

def ofNumber : Number → Value
  | .int n => int n
  | .float x => float x

def key? : Value → Option Key
  | undefined => some .undefined
  | null => some .null
  | bool b => some (.bool b)
  | int n => some (.int n)
  | float x => some (.float x)
  | str s => some (.str s)
  | callable f => some (.callable f)
  | _ => none

def ofKey : Key → Value
  | .undefined => undefined
  | .null => null
  | .bool b => bool b
  | .int n => int n
  | .float x => float x
  | .str s => str s
  | .callable f => callable f

def ofLiteral : Literal → Value
  | .undefined => undefined
  | .null => null
  | .bool b => bool b
  | .int n => int n
  | .float x => float x
  | .str s => str s

def text? : Value → Option Text
  | str s => some s
  | _ => none

def string? (value : Value) : Option String :=
  value.text?.bind Text.string?

def isUndefined : Value → Bool
  | undefined => true
  | _ => false

def isNullish : Value → Bool
  | undefined => true
  | null => true
  | _ => false

def isBool : Value → Bool
  | bool _ => true
  | _ => false

def isCallable : Value → Bool
  | callable _ => true
  | _ => false

/-- Everything counts as true but the empty text, zero, and the absence of a value. -/
def truthy : Value → Bool
  | undefined => false
  | null => false
  | bool b => b
  | int n => n != 0
  | float x => !(x.isZero || x.isNaN)
  | str s => !s.isEmpty
  | _ => true

/--
Whether a setting or a fact counts as on: null, false, zero and everything empty is
off. What lives in the store is on.
-/
def isOn : Value → Bool
  | undefined => false
  | null => false
  | bool b => b
  | int n => n != 0
  | float x => !x.isZero
  | str s => !s.isEmpty
  | list items => !items.isEmpty
  | map entries => !entries.isEmpty
  | _ => true

def jsonToolEntries : Entries Value :=
  [(.str "stringify", callable (.builtin .stringify)), (.str "parse", callable (.builtin .parse))]

end Value

def builtinHelpers : List (String × Value) :=
  [ ("json", .callable (.builtin .json)),
    ("length", .callable (.builtin .length)),
    ("default", .callable (.builtin .default)),
    ("upper", .callable (.builtin .upper)),
    ("lower", .callable (.builtin .lower)),
    ("escape", .callable (.builtin .escape)),
    ("JSON", .jsonTools) ]

end Stencil
