import Mathlib
import Stencil.Expression.Evaluation
import Stencil.Expression.Reader
import Stencil.Proofs.Number.Remainder
import Stencil.Proofs.Outcome

/-!
# Arithmetic on integers

Sums, differences and products of integers are exact, however large the integers are. A remainder
is exact between integers that are doubles. Other integers become the nearest doubles first, and
where one of them is too large for a double there is no remainder.
-/

namespace Stencil

/-! # Truncated remainders -/

/--
What is left of a dividend when it has lost a multiple of the divisor: less than the divisor, and
with the sign of the dividend.
-/
structure IsRemainder (a b r : Int) : Prop where
  exists_quotient : ∃ q, a = q * b + r
  smaller : |r| < |b|
  sign : r = 0 ∨ r.sign = a.sign

theorem isRemainder_tmod (a : Int) {b : Int} (hb : b ≠ 0) : IsRemainder a b (a.tmod b) where
  exists_quotient := ⟨a.tdiv b, by rw [Int.tdiv_mul_add_tmod]⟩
  smaller := by
    rw [Int.abs_eq_natAbs, Int.abs_eq_natAbs, Int.natAbs_tmod]
    exact_mod_cast Nat.mod_lt _ (Int.natAbs_pos.mpr hb)
  sign := by
    rcases lt_trichotomy a 0 with hneg | rfl | hpos
    · have hle := Int.tmod_nonneg b (Int.neg_nonneg_of_nonpos hneg.le)
      rw [Int.neg_tmod] at hle
      rcases (Int.nonpos_of_neg_nonneg hle).lt_or_eq with hless | hzero
      · exact .inr (by rw [Int.sign_eq_neg_one_of_neg hless, Int.sign_eq_neg_one_of_neg hneg])
      · exact .inl hzero
    · exact .inl (Int.zero_tmod b)
    · rcases (Int.tmod_nonneg b hpos.le).lt_or_eq with hmore | hzero
      · exact .inr (by rw [Int.sign_eq_one_of_pos hmore, Int.sign_eq_one_of_pos hpos])
      · exact .inl hzero.symm

open Binary64

theorem wholeNear?_ne_zero {a m : Int} (ha : a ≠ 0) (h : wholeNear? a = some m) : m ≠ 0 := by
  rcases ofInt?_cases a with ⟨-, hnone⟩ | ⟨rank, whole, -, hwhole, -, -, hpos⟩
  · cases hnone.symm.trans h
  · cases hwhole.symm.trans h
    have := hpos ha
    unfold signed
    split <;> omega

/-! # Evaluated operands -/

section Operands

variable {host : Host} {scope : Nat} {left right : Expr} {σ σ' σ'' : Store}

theorem eval_binary (op : BinaryOp) {v w : Value}
    (hleft : left.eval host scope σ = (.ok v, σ'))
    (hright : right.eval host scope σ' = (.ok w, σ'')) :
    (Expr.binary op left right).eval host scope σ = evalBinary op v w σ'' := by
  rw [Expr.eval, bind_def, hleft]
  dsimp only
  rw [bind_def, hright]

variable {op : ArithmeticOp} {a b : Int}

theorem arithmeticValue_int (σ : Store) (op : ArithmeticOp) (a b : Int) :
    arithmeticValue σ op (.int a) (.int b) =
      ((Number.int a).apply op (.int b)).mapError .arithmetic := by
  rw [arithmeticValue, Value.number?, Value.number?]
  dsimp only
  cases (Number.int a).apply op (.int b) <;> rfl

theorem isJoin_int (op : ArithmeticOp) (a b : Int) :
    (op == .add && ((Value.int a).isStr || (Value.int b).isStr)) = false :=
  Bool.and_false _

theorem evalArithmetic_int_ok {n : Int} (h : (Number.int a).apply op (.int b) = .ok (.int n)) :
    evalArithmetic op (.int a) (.int b) σ = (.ok (.int n), σ) := by
  rw [evalArithmetic, isJoin_int, arithmeticValue_int, h]
  rfl

theorem evalArithmetic_int_error {e : ArithmeticError}
    (h : (Number.int a).apply op (.int b) = .error e) :
    evalArithmetic op (.int a) (.int b) σ = (.error (.arithmetic e), σ) := by
  rw [evalArithmetic, isJoin_int, arithmeticValue_int, h]
  rfl

/--
Sums, differences and products of integers are exact. Remainders are those of the doubles nearest
to the integers, and fail if there is none; between integers that are doubles they are exact.
-/
theorem integer_operations
    (hleft : left.eval host scope σ = (.ok (.int a), σ'))
    (hright : right.eval host scope σ' = (.ok (.int b), σ'')) :
    let value op := (Expr.binary (.arithmetic op) left right).eval host scope σ
    value .add = (.ok (.int (a + b)), σ'') ∧
      value .sub = (.ok (.int (a - b)), σ'') ∧
      value .mul = (.ok (.int (a * b)), σ'') ∧
      (b ≠ 0 →
        (IsDouble a → IsDouble b →
          ∃ r, value .rem = (.ok (.int r), σ'') ∧ IsRemainder a b r) ∧
        (∀ m n, wholeNear? a = some m → wholeNear? b = some n →
          ∃ r, value .rem = (.ok (.int r), σ'') ∧ IsRemainder m n r) ∧
        (wholeNear? a = none ∨ wholeNear? b = none →
          value .rem = (.error (.arithmetic .tooLarge), σ''))) := by
  intro value
  have hvalue (op : ArithmeticOp) : value op = evalArithmetic op (.int a) (.int b) σ'' :=
    eval_binary (.arithmetic op) hleft hright
  refine ⟨?_, ?_, ?_, fun hb => ?_⟩
  · rw [hvalue]
    exact evalArithmetic_int_ok rfl
  · rw [hvalue]
    exact evalArithmetic_int_ok rfl
  · rw [hvalue]
    exact evalArithmetic_int_ok rfl
  · have hnear : ∀ m n, wholeNear? a = some m → wholeNear? b = some n →
        ∃ r, value .rem = (.ok (.int r), σ'') ∧ IsRemainder m n r := by
      intro m n hm hn
      have hrem : (Number.int a).apply .rem (.int b) = .ok (.int (m.tmod n)) := by
        rw [Number.apply, Number.remainder_int hb hm hn]
      refine ⟨m.tmod n, ?_, isRemainder_tmod m (wholeNear?_ne_zero hb hn)⟩
      rw [hvalue]
      exact evalArithmetic_int_ok hrem
    refine ⟨fun ha hb' => hnear a b ha.wholeNear?_eq hb'.wholeNear?_eq, hnear, fun hnone => ?_⟩
    have hrem : (Number.int a).apply .rem (.int b) = .error .tooLarge := by
      rw [Number.apply, Number.remainder_int_of_none hnone]
    rw [hvalue]
    exact evalArithmetic_int_error hrem

end Operands

theorem integer_operations_mixed :
    let left : Expr := .unary .minus (.literal (.int 7))
    let right : Expr := .literal (.int 3)
    let σ := Store.ofData [] []
    let value op := (Expr.binary (.arithmetic op) left right).eval .none 0 σ
    value .add = (.ok (.int (-4)), σ) ∧
      value .sub = (.ok (.int (-10)), σ) ∧
      value .mul = (.ok (.int (-21)), σ) ∧
      ∃ r, value .rem = (.ok (.int r), σ) ∧ IsRemainder (-7) 3 r := by
  intro left right σ value
  have hleft : left.eval .none 0 σ = (.ok (.int (-7)), σ) := rfl
  have hright : right.eval .none 0 σ = (.ok (.int 3), σ) := rfl
  have hdividend : IsDouble (-7) := isDouble_of_natAbs_lt (by decide)
  have hdivisor : IsDouble 3 := isDouble_of_natAbs_lt (by decide)
  rcases integer_operations hleft hright with ⟨hadd, hsub, hmul, hrem⟩
  refine ⟨hadd, hsub, hmul, ?_⟩
  exact (hrem (by decide)).1 hdividend hdivisor

/-- The remainder of an odd integer by two is found to be zero. -/
theorem odd_remainder_lost :
    let e : Expr :=
      .binary (.arithmetic .rem) (.literal (.int 9007199254740993)) (.literal (.int 2))
    let σ := Store.ofData [] []
    Expr.compile "9007199254740993 % 2" = .ok e ∧ e.eval .none 0 σ = (.ok (.int 0), σ) ∧
      ¬ IsRemainder 9007199254740993 2 0 := by
  intro e σ
  refine ⟨?_, ?_, ?_⟩
  · have htokens : tokenize (Text.strip "9007199254740993 % 2") = .ok
        [⟨.number, "9007199254740993", 0⟩, ⟨.operator, "%", 17⟩, ⟨.number, "2", 19⟩,
          ⟨.stop, "", 20⟩] := by
      cbv
    -- The digits are many, so that their number is left to the kernel.
    have hdigits : Text.numeral ("9007199254740993".toList.filterMap Text.digitValue?) =
        9007199254740993 := by
      decide +kernel
    have hnumber : Expr.ofNumber "9007199254740993" = .literal (.int 9007199254740993) := by
      unfold Expr.ofNumber
      simp only [hdigits]
      rfl
    dsimp only [e]
    rw [← hnumber, Expr.compile, htokens]
    rfl
  · have hodd : wholeNear? 9007199254740993 = some 9007199254740992 := by
      decide +kernel
    have htwo : wholeNear? 2 = some 2 := by
      decide +kernel
    have hrem : (Number.int 9007199254740993).apply .rem (.int 2) = .ok (.int 0) := by
      rw [Number.apply, Number.remainder_int (by decide) hodd htwo]
      rfl
    have hleft : (Expr.literal (.int 9007199254740993)).eval .none 0 σ =
        (.ok (.int 9007199254740993), σ) := rfl
    have hright : (Expr.literal (.int 2)).eval .none 0 σ = (.ok (.int 2), σ) := rfl
    have heval : e.eval .none 0 σ = evalArithmetic .rem (.int 9007199254740993) (.int 2) σ :=
      eval_binary (.arithmetic .rem) hleft hright
    rw [heval]
    exact evalArithmetic_int_ok hrem
  · rintro ⟨⟨q, hq⟩, -, -⟩
    omega

end Stencil
