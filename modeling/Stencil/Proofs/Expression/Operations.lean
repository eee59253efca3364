import Stencil.Expression.Evaluation

/-!
# What operators do to a store

An operator gives out a mark for a result that is not a number. It does nothing else to the store.
A value that is not a function cannot be called, which does nothing to it at all.
-/

namespace Stencil

namespace Store

/-- What may happen to a store that is left alone, except that marks are given out. -/
def Marks (σ τ : Store) : Prop :=
  ∃ mark, σ.nextMark ≤ mark ∧ τ = { σ with nextMark := mark }

theorem Marks.refl (σ : Store) : σ.Marks σ :=
  ⟨σ.nextMark, Nat.le_refl _, rfl⟩

theorem Marks.calls_eq {σ τ : Store} (h : σ.Marks τ) : τ.calls = σ.calls := by
  rcases h with ⟨mark, -, rfl⟩
  rfl

theorem marks_keep (σ : Store) (result : Number) : σ.Marks (σ.keep result).2 := by
  unfold keep
  split
  · exact ⟨σ.nextMark + 1, Nat.le_succ _, rfl⟩
  · exact .refl σ

end Store

theorem marks_evalArithmetic (op : ArithmeticOp) (v w : Value) (σ : Store) :
    σ.Marks (evalArithmetic op v w σ).2 := by
  unfold evalArithmetic
  split
  · exact .refl σ
  · split
    · exact .refl σ
    · split
      · exact σ.marks_keep _
      · exact .refl σ

theorem marks_evalBinary (op : BinaryOp) (v w : Value) (σ : Store) :
    σ.Marks (evalBinary op v w σ).2 := by
  cases op with
  | arithmetic op => exact marks_evalArithmetic op v w σ
  | _ => exact .refl σ

theorem marks_evalUnary (op : UnaryOp) (v : Value) (σ : Store) :
    σ.Marks (evalUnary op v σ).2 := by
  unfold evalUnary
  cases op with
  | not => exact .refl σ
  | minus =>
      dsimp only
      split
      · exact .refl σ
      · split
        · exact .refl σ
        · exact σ.marks_keep _
  | plus =>
      dsimp only
      split
      · exact .refl σ
      · split <;> exact .refl σ

/-! # Calls -/

theorem call_def (host : Host) (scope : Nat) {v : Value} (hv : v.isCallable = false)
    (args : List Value) (σ : Store) :
    v.call host scope args σ =
      match σ.shownCallee v with
      | .ok shown => (.error (.notCallable shown), σ)
      | .error e => (.error e, σ) := by
  cases v with
  | callable f => cases hv
  | _ => rfl

end Stencil
