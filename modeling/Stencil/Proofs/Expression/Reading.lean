import Mathlib
import Stencil.Proofs.Expression.Rows

/-!
# What expressions read as

A text that falls into tokens is an expression if and only if the grammar derives a
tree from the tokens before the stop token, and then it reads as that tree. So the
grammar is unambiguous, and a text without a tree is refused with a syntax error.
-/

namespace Stencil
namespace Grammar

open Stencil.Expr

/-- The trees of a text are those that the grammar derives: none, or exactly one. -/
theorem compile_eq_ok_iff_derives {source : String} {tokens : List Token}
    (h : tokenize (Text.strip source) = .ok tokens) :
    (∀ tree, compile source = .ok tree ↔
      Derives (.expr .conditional tree) tokens.dropLast) ∧
    (∀ tree other, Derives (.expr .conditional tree) tokens.dropLast →
      Derives (.expr .conditional other) tokens.dropLast → tree = other) ∧
    ((∀ tree, ¬ Derives (.expr .conditional tree) tokens.dropLast) →
      ∃ e, compile source = .error e ∧ e ≠ .unfinished) := by
  have hiff := compile_eq_ok_iff h
  refine ⟨hiff, ?_, ?_⟩
  · intro tree other htree hother
    have hcompiled := (hiff tree).mpr htree
    rw [(hiff other).mpr hother] at hcompiled
    cases hcompiled
    rfl
  · intro hnone
    cases hresult : compile source with
    | ok tree => exact absurd ((hiff tree).mp hresult) (hnone tree)
    | error e =>
        refine ⟨e, rfl, ?_⟩
        rintro rfl
        exact finished_compile h hresult

theorem derives_product_or_call :
    tokenize (Text.strip " -a * 2 || f([1,])") = .ok
      [ ⟨.operator, "-", 0⟩, ⟨.name, "a", 1⟩, ⟨.operator, "*", 3⟩, ⟨.number, "2", 5⟩,
        ⟨.operator, "||", 7⟩, ⟨.name, "f", 10⟩, ⟨.operator, "(", 11⟩, ⟨.operator, "[", 12⟩,
        ⟨.number, "1", 13⟩, ⟨.operator, ",", 14⟩, ⟨.operator, "]", 15⟩,
        ⟨.operator, ")", 16⟩, ⟨.stop, "", 17⟩ ] ∧
    Derives
      (.expr .conditional
        (.logical .or
          (.binary (.arithmetic .mul) (.unary .minus (.name "a")) (.literal (.int 2)))
          (.call (.name "f") [.array [.literal (.int 1)]])))
      [ ⟨.operator, "-", 0⟩, ⟨.name, "a", 1⟩, ⟨.operator, "*", 3⟩, ⟨.number, "2", 5⟩,
        ⟨.operator, "||", 7⟩, ⟨.name, "f", 10⟩, ⟨.operator, "(", 11⟩, ⟨.operator, "[", 12⟩,
        ⟨.number, "1", 13⟩, ⟨.operator, ",", 14⟩, ⟨.operator, "]", 15⟩,
        ⟨.operator, ")", 16⟩ ] := by
  have htokens :
      tokenize (Text.strip " -a * 2 || f([1,])") = .ok
        [ ⟨.operator, "-", 0⟩, ⟨.name, "a", 1⟩, ⟨.operator, "*", 3⟩, ⟨.number, "2", 5⟩,
          ⟨.operator, "||", 7⟩, ⟨.name, "f", 10⟩, ⟨.operator, "(", 11⟩, ⟨.operator, "[", 12⟩,
          ⟨.number, "1", 13⟩, ⟨.operator, ",", 14⟩, ⟨.operator, "]", 15⟩,
          ⟨.operator, ")", 16⟩, ⟨.stop, "", 17⟩ ] := by
    cbv
  have hcompiled :
      compile " -a * 2 || f([1,])" = .ok
        (.logical .or
          (.binary (.arithmetic .mul) (.unary .minus (.name "a")) (.literal (.int 2)))
          (.call (.name "f") [.array [.literal (.int 1)]])) := by
    cbv
  constructor
  · exact htokens
  · exact ((compile_eq_ok_iff_derives htokens).1 _).mp hcompiled

end Grammar
end Stencil
