import Stencil.Value.Shown

/-!
# Facts

What is known about a case that went wrong: facts by name. Most facts are texts and
numbers; whoever reports the case may also give other values. Every fact comes with
the text that shows it, so that a message needs nothing from the store.
-/

namespace Stencil

inductive Fact where
  | text (s : Text)
  | number (n : Int)
  /-- Any other value, with the text that shows it. -/
  | other (value : Value) (shown : Text)

namespace Fact

def value : Fact → Value
  | text s => .str s
  | number n => .int n
  | other value _ => value

def shown : Fact → Text
  | text s => s
  | number n => Value.shownInt n
  | other _ shown => shown

def quoted : Fact → Text
  | text s => Text.quote s
  | fact => fact.shown

/-- Whether a fact says anything: null, zero and everything empty does not. -/
def isOn (fact : Fact) : Bool :=
  fact.value.isOn

def isNull : Fact → Bool
  | other .null _ => true
  | _ => false

def said (fact : Option Fact) : Option Fact :=
  fact.filter isOn

end Fact

def Store.fact (σ : Store) : Value → Fact
  | .str s => .text s
  | .int n => .number n
  | v => .other v (σ.shown v)

abbrev Facts : Type := List (String × Fact)

namespace Facts

def get? (facts : Facts) (name : String) : Option Fact :=
  (facts.find? fun fact => fact.1 == name).map (·.2)

def set : Facts → String → Fact → Facts
  | [], name, fact => [(name, fact)]
  | (n, f) :: rest, name, fact =>
      if n == name then (name, fact) :: rest else (n, f) :: set rest name fact

def merge (facts more : Facts) : Facts :=
  more.foldl (fun all fact => all.set fact.1 fact.2) facts

def given (name : String) (fact : Option Fact) : Facts :=
  match fact with
  | some f => [(name, f)]
  | none => []

def known? (facts : Facts) (name : String) : Option Fact :=
  (facts.get? name).filter fun fact => !fact.isNull

def said? (facts : Facts) (name : String) : Option Fact :=
  Fact.said (facts.get? name)

end Facts
end Stencil
