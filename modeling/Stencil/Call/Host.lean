import Stencil.Call.Builtin

/-!
# Calls

The host application brings functions of its own. A host function may look at
everything in the store, at what has been called before, and at its arguments.
It answers with a value or a failure, and may change shared containers before it
does. It binds names in the scope it is handed, if it is one that is handed the scope.
-/

namespace Stencil

/-- What a host function answers. -/
structure Reply where
  result : Except Failure Value
  /-- Bindings made in the scope of the call. -/
  binds : List (Key × Value) := []
  /-- What has become of shared containers, by their places. -/
  changes : List (Nat × Container) := []

structure Host where
  /-- The functions of the host application, by name. -/
  run : Store → Option Nat → String → List Value → Reply
  /--
  How many rounds a loop over a list is followed beyond the number of items at first. For the
  host may lengthen the list round by round, and then the loop has no end.
  -/
  patience : Nat := 0

def Host.none : Host where
  run _ _ _ _ := { result := .error .wrongArguments }

abbrev Evaluation (α : Type) : Type := ExceptT Failure (StateM Store) α

namespace Evaluation

def ofExcept (result : Except Failure α) : Evaluation α :=
  fun σ => (result, σ)

def keep (result : Number) : Evaluation Value := fun σ =>
  let (value, after) := σ.keep result
  (.ok value, after)

end Evaluation

/-- Applies a function to arguments in a scope, and records the call. -/
def Callable.apply (host : Host) (scope : Nat) (f : Callable) (args : List Value) :
    Evaluation Value := fun σ =>
  let after := σ.record ⟨f, args⟩
  match f with
  | .builtin function => (function.run σ args, after)
  | .host name takesScope =>
      let reply := host.run σ (if takesScope then some scope else none) name args
      let after := after.rewrite reply.changes
      if takesScope then
        (reply.result, reply.binds.foldl (fun σ b => σ.bind scope b.1 b.2) after)
      else (reply.result, after)

def Store.shownCallee (σ : Store) (v : Value) : Except Failure Text := do
  match ← σ.outputText v with
  | some text => return if text.isEmpty then ↑(σ.typeName v) else text
  | none => return σ.typeName v

def Value.call (host : Host) (scope : Nat) (v : Value) (args : List Value) : Evaluation Value :=
  match v with
  | .callable f => f.apply host scope args
  | v => fun σ =>
      match σ.shownCallee v with
      | .ok shown => (.error (.notCallable shown), σ)
      | .error e => (.error e, σ)

end Stencil
