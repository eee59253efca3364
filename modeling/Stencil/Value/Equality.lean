import Stencil.Number.Reading
import Stencil.Failure
import Stencil.Value.Store

/-!
# Equality

Equality of values looks at contents: numbers are compared by value whatever
their kind, containers element by element. An element that is the very same
thing on both sides is not looked into, so a container that contains itself is
equal to itself; two such containers that differ only in place are never found
to be equal or unequal.

Comparison walks the left value. Where it meets a place in the store it goes on
with the contents of the place.
-/

namespace Stencil

namespace Value

def place? : Value → Option Place
  | shared place => some (.shared place)
  | scope place => some (.scope place)
  | _ => none

/-- Values that are the same thing, not only equal. -/
def identical (v w : Value) : Bool :=
  match v, w with
  | float (.nan m), float (.nan n) => m == n
  | v, w =>
      match v.place?, w.place? with
      | some p, some q => p == q
      | _, _ => false

/-- Equality of values without elements. -/
def plainEqual (v w : Value) : Bool :=
  match v, w with
  | undefined, undefined => true
  | null, null => true
  | str s, str t => s == t
  | callable f, callable g => f == g
  | host m _ _ _, host n _ _ _ => m == n
  | v, w =>
      match v.number?, w.number? with
      | some x, some y => x.equal y
      | _, _ => false

/-! # The size of values -/

mutual

/-- How many values a value is made of, places and objects from outside counting as one. -/
def weight : Value → Nat
  | list items => 1 + weightList items
  | map entries => 1 + weightEntries entries
  | jsonTools => 3
  | _ => 1

def weightList : List Value → Nat
  | [] => 0
  | v :: rest => v.weight + weightList rest

def weightEntries : List (Key × Value) → Nat
  | [] => 0
  | (_, v) :: rest => v.weight + weightEntries rest

end

end Value

namespace Store

def containerWeight : Container → Nat
  | .list items => 1 + Value.weightList items
  | .map entries => 1 + Value.weightEntries entries

def weight (σ : Store) : Nat :=
  Value.weightEntries σ.data
    + σ.scopes.foldl (fun n scope => n + 1 + Value.weightEntries scope.own) 0
    + σ.shared.foldl (fun n c => n + containerWeight c) 0

/--
A comparison that goes through more places than there are pairs of values to
compare meets a pair again, and so has no end.
-/
def patience (σ : Store) (v w : Value) : Nat :=
  (v.weight + σ.weight + 1) * (w.weight + σ.weight + 1)

/-! # Equality -/

mutual

/-- Equality of values; `enter` compares the contents of a place with a value. -/
def equalWith (σ : Store) (enter : Place → Value → Except Failure Bool) :
    Value → Value → Except Failure Bool
  | .list items, w =>
      match σ.items? w with
      | some others =>
          if items.length == others.length then equalItems σ enter items others else .ok false
      | none => .ok false
  | .map entries, w =>
      match σ.entries? w with
      | some others =>
          if entries.length == others.length then equalEntries σ enter entries others
          else .ok false
      | none => .ok false
  | .jsonTools, w =>
      match σ.entries? w with
      | some others =>
          .ok (others.length == 2 && Value.jsonToolEntries.all fun entry =>
            match Entries.get? others entry.1 with
            | some v => entry.2.plainEqual v
            | none => false)
      | none => .ok false
  | .shared place, w => enter (.shared place) w
  | .scope place, w => enter (.scope place) w
  | v, w => .ok (v.plainEqual w)

def equalItems (σ : Store) (enter : Place → Value → Except Failure Bool) :
    List Value → List Value → Except Failure Bool
  | v :: rest, w :: others =>
      if v.identical w then equalItems σ enter rest others
      else do
        if ← equalWith σ enter v w then equalItems σ enter rest others else return false
  | _, _ => .ok true

def equalEntries (σ : Store) (enter : Place → Value → Except Failure Bool) :
    List (Key × Value) → Entries Value → Except Failure Bool
  | [], _ => .ok true
  | (key, v) :: rest, others =>
      match Entries.get? others key with
      | none => .ok false
      | some w =>
          if v.identical w then equalEntries σ enter rest others
          else do
            if ← equalWith σ enter v w then equalEntries σ enter rest others else return false

end

def equalPlace (σ : Store) : Nat → Place → Value → Except Failure Bool
  | 0, _, _ => .error .endless
  | left + 1, p, w => equalWith σ (equalPlace σ left) (σ.contents p) w

def equal (σ : Store) (v w : Value) : Except Failure Bool :=
  equalWith σ (fun p u => equalPlace σ (σ.patience v w) p u) v w

/-! # The equality operators -/

/--
`==`: undefined and null are equal to each other and to nothing else, and a text
is compared with a number as a number.
-/
def looseEqual (σ : Store) (v w : Value) : Except Failure Bool :=
  if v.isNullish || w.isNullish then .ok (v.isNullish && w.isNullish)
  else
    match v.number?, v, w.number?, w with
    | some x, _, _, .str s => asNumbers x s
    | _, .str s, some y, _ => asNumbers y s
    | _, _, _, _ => σ.equal v w
where
  asNumbers (x : Number) (s : Text) : Except Failure Bool :=
    match x.toBinary with
    | .error e => .error (.arithmetic e)
    | .ok a =>
        match s.string?.bind NumberText.float? with
        | some b => .ok (a.compare? b == some .eq)
        | none => .ok false

/-- `===`: values of different kinds are unequal. -/
def strictEqual (σ : Store) (v w : Value) : Except Failure Bool :=
  match v, w with
  | .undefined, w => .ok w.isUndefined
  | _, .undefined => .ok false
  | .null, .null => .ok true
  | .null, _ => .ok false
  | _, .null => .ok false
  | v, w =>
      if v.isBool != w.isBool then .ok false
      else if v.number?.isSome != w.number?.isSome then .ok false
      else σ.equal v w

end Store
end Stencil
