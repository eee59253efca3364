import Stencil.Engine.Helpers
import Stencil.Proofs.View.NormalForm

/-!
# Names as expressions

A name by itself is an expression, and so is a name with a line break behind it: it is the name, or
what the word is reserved for.
-/

namespace Stencil

open Grammar

theorem strip_name {name : String} (h : isName name.toList = true) : Text.strip name = name :=
  Text.strip_of_isTrimmed (isTrimmed_of_dotted (.name h))

theorem tokenize_name {name : String} (h : isName name.toList = true) :
    tokenize name = .ok [⟨.name, name, 0⟩, ⟨.stop, "", name.length⟩] := by
  have hnone : ∀ c ∈ ([] : List Char).head?, isNameChar c = false := by simp
  have hrow := tokensFrom_name h hnone 0
  rw [List.append_nil, String.ofList_toList, String.length_toList, Nat.zero_add] at hrow
  rw [tokenize, hrow]
  rfl

theorem ofWord_of_not_mem {name : String} (h : name ∉ Helpers.reservedWords) :
    Expr.ofWord name = .name name := by
  simp only [Helpers.reservedWords, List.mem_cons, List.not_mem_nil, or_false, not_or] at h
  unfold Expr.ofWord
  split <;> simp_all

theorem Expr.ofWord_eq_name {word name : String} (h : Expr.ofWord word = .name name) :
    name = word := by
  unfold Expr.ofWord at h
  split at h <;> cases h
  rfl

theorem compile_of_strip {source name : String} (h : isName name.toList = true)
    (hstrip : Text.strip source = name) : Expr.compile source = .ok (.ofWord name) := by
  have htokens : tokenize (Text.strip source) =
      .ok [⟨.name, name, 0⟩, ⟨.stop, "", name.length⟩] := by
    rw [hstrip]
    exact tokenize_name h
  rw [compile_eq_ok_iff htokens]
  exact (@Derives.word ⟨.name, name, 0⟩ rfl).of_primary

theorem compile_word {name : String} (h : isName name.toList = true) :
    Expr.compile name = .ok (.ofWord name) :=
  compile_of_strip h (strip_name h)

theorem compile_name {name : String} (h : isName name.toList = true)
    (hreserved : name ∉ Helpers.reservedWords) : Expr.compile name = .ok (.name name) := by
  rw [compile_word h, ofWord_of_not_mem hreserved]

/-! # Line breaks -/

theorem Text.strip_append_break {name : String} (h : isName name.toList = true) :
    Text.strip (name ++ "\n") = name := by
  rcases exists_of_isName h with ⟨c, rest, hchars, hc, -⟩
  have hinked := isBlank_of_isNameChar (isNameChar_of_isNameStart hc)
  have hstart : Text.trimStart (name.toList ++ ['\n']) = name.toList ++ ['\n'] := by
    rw [hchars]
    exact View.trimStart_append_of_inked hinked (rest ++ ['\n'])
  have hend : Text.trimEnd (name.toList ++ ['\n']) = Text.trimEnd name.toList :=
    List.rdropWhile_concat_pos Text.isBlank name.toList '\n' (by decide)
  have hname : Text.trim name.toList = name.toList :=
    Text.trim_of_isTrimmed (isTrimmed_of_dotted (.name h))
  have hwhole : Text.trimStart name.toList = name.toList := by
    rw [hchars]
    exact View.trimStart_append_of_inked hinked rest
  rw [Text.trim, hwhole] at hname
  rw [Text.strip, Text.trim, String.toList_append]
  show String.ofList (Text.trimEnd (Text.trimStart (name.toList ++ ['\n']))) = name
  rw [hstart, hend, hname, String.ofList_toList]

theorem compile_append_break {name : String} (h : isName name.toList = true) :
    Expr.compile (name ++ "\n") = .ok (.ofWord name) :=
  compile_of_strip h (Text.strip_append_break h)

end Stencil
