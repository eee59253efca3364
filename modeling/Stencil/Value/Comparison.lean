import Stencil.Value.Equality

/-!
# Order

Numbers are ordered by value, texts by code points, and lists by the first
element in which they differ. No other values have an order; undefined and null
are below and above nothing.
-/

namespace Stencil
namespace Store

/-- The order of values without elements. -/
def plainCompare (σ : Store) (op : ComparisonOp) (v w : Value) : Except Failure Bool :=
  match v, w with
  | .str s, .str t => .ok (op.holds (s.order t))
  | v, w =>
      match v.number?, w.number? with
      | some x, some y =>
          .ok (match x.compare? y with
            | some order => op.holds order
            | none => false)
      | _, _ => .error (.unordered (σ.typeName v) (σ.typeName w))

mutual

/-- The order of values; `enter` compares the contents of a place with a value. -/
def compareWith (σ : Store) (op : ComparisonOp) (enter : Place → Value → Except Failure Bool) :
    Value → Value → Except Failure Bool
  | .list items, w =>
      match σ.items? w with
      | some others => compareItems σ op enter items others
      | none => .error (.unordered "list" (σ.typeName w))
  | .shared place, w => enter (.shared place) w
  | v, w => plainCompare σ op v w

/-- Lists are ordered as their first different elements, else as their lengths. -/
def compareItems (σ : Store) (op : ComparisonOp) (enter : Place → Value → Except Failure Bool) :
    List Value → List Value → Except Failure Bool
  | v :: rest, w :: others =>
      if v.identical w then compareItems σ op enter rest others
      else do
        if ← σ.equal v w then compareItems σ op enter rest others
        else compareWith σ op enter v w
  | [], others => .ok (op.holds (compare 0 others.length))
  | _ :: rest, [] => .ok (op.holds (compare (rest.length + 1) 0))

end

def comparePlace (σ : Store) (op : ComparisonOp) : Nat → Place → Value → Except Failure Bool
  | 0, _, _ => .error .endless
  | left + 1, p, w => compareWith σ op (comparePlace σ op left) (σ.contents p) w

def compareValues (σ : Store) (op : ComparisonOp) (v w : Value) : Except Failure Bool :=
  if v.isNullish || w.isNullish then .ok false
  else compareWith σ op (fun p u => comparePlace σ op (σ.patience v w) p u) v w

end Store
end Stencil
