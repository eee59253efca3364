import Stencil.Call.Host
import Stencil.Expression.Reader
import Stencil.Value.Comparison
import Stencil.Value.Member

/-!
# Evaluation

Expressions are evaluated in a scope, from left to right except that a subscript
comes before its object. Names mean what the scope binds them to, else a helper,
else nothing; there is no other way from an expression to the world. Operations
on undefined are undefined.
-/

namespace Stencil

/-! # Operators -/

def arithmeticValue (σ : Store) (op : ArithmeticOp) (v w : Value) : Except Failure Number :=
  match v.number?, w.number? with
  | some x, some y =>
      match x.apply op y with
      | .ok result => .ok result
      | .error e => .error (.arithmetic e)
  | _, _ => .error (.operands op (σ.typeName v) (σ.typeName w))

def Value.isStr : Value → Bool
  | .str _ => true
  | _ => false

def concatenate (σ : Store) (v w : Value) : Except Failure Value := do
  let left ← σ.outputText v
  let right ← σ.outputText w
  match left, right with
  | some s, some t => return .str (s ++ t)
  | _, _ => throw .concatenation

/-- The sum of numbers, or the joined texts if a text is among the operands. -/
def evalArithmetic (op : ArithmeticOp) (v w : Value) : Evaluation Value := fun σ =>
  if v.isUndefined || w.isUndefined then (.ok .undefined, σ)
  else if op == .add && (v.isStr || w.isStr) then (concatenate σ v w, σ)
  else
    match arithmeticValue σ op v w with
    | .ok result => Evaluation.keep result σ
    | .error e => (.error e, σ)

def evalBinary (op : BinaryOp) (v w : Value) : Evaluation Value :=
  match op with
  | .arithmetic op => evalArithmetic op v w
  | .comparison op => fun σ => ((σ.compareValues op v w).map .bool, σ)
  | .looseEqual => fun σ => ((σ.looseEqual v w).map .bool, σ)
  | .looseUnequal => fun σ => ((σ.looseEqual v w).map fun b => .bool !b, σ)
  | .strictEqual => fun σ => ((σ.strictEqual v w).map .bool, σ)
  | .strictUnequal => fun σ => ((σ.strictEqual v w).map fun b => .bool !b, σ)

def evalUnary (op : UnaryOp) (v : Value) : Evaluation Value := fun σ =>
  match op with
  | .not => (.ok (.bool !v.truthy), σ)
  | op =>
      if v.isUndefined then (.ok .undefined, σ)
      else
        match v.number? with
        | none => (.error (.operand op (σ.typeName v)), σ)
        | some x =>
            match op with
            | .minus => Evaluation.keep x.negate σ
            | _ => (.ok (.ofNumber x), σ)

/-! # Members of the receiver -/

/--
A member of `this`. A name that the receiver does not have is looked up in the
scope, unless the scope is itself the receiver.
-/
def receiverMember (σ : Store) (scope : Nat) (key : Value) : Except Failure Value := do
  let receiver := σ.receiver scope
  let found ← σ.member receiver key
  match found, key with
  | .undefined, .str name =>
      if receiver.place? == some (.scope scope) then return .undefined
      else return σ.lookupKey scope (.str name)
  | found, _ => return found

/-! # Expressions -/

mutual

def Expr.eval (host : Host) (scope : Nat) : Expr → Evaluation Value
  | .literal value => pure (.ofLiteral value)
  | .name name => do return (← get).lookup scope name
  | .this => do return (← get).receiver scope
  | .member target key => do
      let k ← key.eval host scope
      match target with
      | .this => Evaluation.ofExcept (receiverMember (← get) scope k)
      | target =>
          let v ← target.eval host scope
          Evaluation.ofExcept ((← get).member v k)
  | .call callee args => do
      let f ← callee.eval host scope
      let vs ← evalList host scope args
      f.call host scope vs
  | .unary op operand => do
      let v ← operand.eval host scope
      evalUnary op v
  | .binary op left right => do
      let v ← left.eval host scope
      let w ← right.eval host scope
      evalBinary op v w
  | .logical .and left right => do
      let v ← left.eval host scope
      if v.truthy then right.eval host scope else return v
  | .logical .or left right => do
      let v ← left.eval host scope
      if v.truthy then return v else right.eval host scope
  | .conditional test yes no => do
      let v ← test.eval host scope
      if v.truthy then yes.eval host scope else no.eval host scope
  | .array items => do return .list (← evalList host scope items)
  | .object entries => do return .map (Entries.ofPairs (← evalEntries host scope entries))

def evalList (host : Host) (scope : Nat) : List Expr → Evaluation (List Value)
  | [] => pure []
  | e :: rest => do
      let v ← e.eval host scope
      let vs ← evalList host scope rest
      return v :: vs

def evalEntries (host : Host) (scope : Nat) : List (Text × Expr) → Evaluation (Entries Value)
  | [] => pure []
  | (key, e) :: rest => do
      let v ← e.eval host scope
      let others ← evalEntries host scope rest
      return (.str key, v) :: others

end

/-! # Sources -/

def evalSource (host : Host) (scope : Nat) (source : String) : Evaluation Value :=
  match Expr.compile source with
  | .ok tree => tree.eval host scope
  | .error e => Evaluation.ofExcept (.error (.malformed e))

/-- The output text of an expression. -/
def textOfSource (host : Host) (scope : Nat) (source : String) : Evaluation (Option Text) := do
  let v ← evalSource host scope source
  Evaluation.ofExcept ((← get).outputText v)

end Stencil
