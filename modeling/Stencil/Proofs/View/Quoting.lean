import Stencil.Proofs.Expression.TokenPattern
import Stencil.Proofs.View.Positions

/-!
# Where string literals end

String literals are looked for in three ways: by a scan that looks for the closing quote, as tokens
of an expression, and as the path of an include. A quote begins the same literal for each of them,
or none for any of them.
-/

namespace Stencil

open Grammar

def IsStringToken (text : List Char) (pos stop : Nat) : Prop :=
  lexeme? (text.drop pos) = some (some .string, stop - pos)

/-- Whether what lies between two positions is a path, as the header of an include has one. -/
def IsIncludePath (text : List Char) (pos stop : Nat) : Prop :=
  stop ≤ text.length ∧ includeParts? (slice text pos stop) = some (slice text pos stop, none)

section Literals

variable {text rest : List Char} {c : Char} {pos : Nat}

theorem stringLength_quote (hquote : isQuote c = true) (rest : List Char) :
    stringLength (c :: rest) = ((bodyLength? c rest).map (· + 2)).getD 0 := by
  rw [Regex.stringLength_cons, if_pos hquote]

theorem lexeme?_quote (hquote : isQuote c = true) (rest : List Char) :
    lexeme? (c :: rest) = (bodyLength? c rest).map fun n => (some .string, n + 2) := by
  have hblank := isBlank_of_isQuote hquote
  have hlength := stringLength_quote hquote rest
  have hother : numberLength (c :: rest) = 0 ∧ nameLength (c :: rest) = 0 ∧
      operatorLength (c :: rest) = 0 := by
    rcases eq_of_isQuote hquote with rfl | rfl <;> exact ⟨rfl, rfl, rfl⟩
  cases hbody : bodyLength? c rest with
  | none =>
      rw [hbody] at hlength
      simp [lexeme?, hblank, hlength, hother]
  | some n =>
      rw [hbody] at hlength
      simp [lexeme?, hblank, hlength, hother]

theorem endAt?_quoted (hquote : isQuote c = true) (hdrop : text.drop pos = c :: rest) :
    Regex.quoted.endAt? text pos = (bodyLength? c rest).map (pos + 2 + ·) := by
  have hlength := congrArg List.length hdrop
  rw [List.length_drop, List.length_cons] at hlength
  rw [Regex.endAt?, hdrop, Regex.measures_quoted.match?_eq, stringLength_quote hquote]
  cases hbody : bodyLength? c rest with
  | none => rfl
  | some n =>
      have hinside := Positions.succ_le_length_of_bodyLength? hbody
      simp only [Option.map_some, Option.getD_some, Nat.add_eq_zero_iff, OfNat.ofNat_ne_zero,
        and_false, if_false, List.drop_succ_cons, List.length_drop]
      congr 1
      omega

theorem isStringToken_iff (hquote : isQuote c = true) (hdrop : text.drop pos = c :: rest)
    (stop : Nat) :
    IsStringToken text pos stop ↔ (bodyLength? c rest).map (pos + 2 + ·) = some stop := by
  rw [IsStringToken, hdrop, lexeme?_quote hquote]
  cases bodyLength? c rest with
  | none => simp
  | some n =>
      simp only [Option.map_some, Option.some.injEq, Prod.mk.injEq, true_and]
      omega

theorem includeParts?_quote (hquote : isQuote c = true) (rest : List Char) :
    includeParts? (c :: rest) = some (c :: rest, none) ↔
      stringLength (c :: rest) = (c :: rest).length := by
  rw [includeParts?, View.trimStart_append_of_inked (isBlank_of_isQuote hquote)]
  constructor
  · intro hparts
    have hfits := Regex.measures_quoted.le_length (c :: rest)
    have hfront : (c :: rest).take (stringLength (c :: rest)) = c :: rest := by
      split at hparts
      · cases hparts
      · split at hparts
        · exact (Prod.mk.inj (Option.some.inj hparts)).1
        · cases (Prod.mk.inj (Option.some.inj hparts)).2
        · cases hparts
    have hlength := congrArg List.length hfront
    rw [List.length_take] at hlength
    omega
  · intro hlength
    rw [hlength, if_neg (by simp), List.drop_length, List.take_length]
    rfl

theorem stringLength_of_isIncludePath {stop : Nat} (hquote : isQuote c = true)
    (hdrop : text.drop pos = c :: rest) (h : IsIncludePath text pos stop) :
    pos < stop ∧ stringLength (c :: rest) = stop - pos := by
  rcases h with ⟨hstop, hpath⟩
  have hstart : pos < stop := by
    by_contra hbehind
    rw [slice, Nat.sub_eq_zero_of_le (Nat.le_of_not_lt hbehind), List.take_zero] at hpath
    cases hpath
  have hcons := slice_cons (getElem?_of_drop hdrop) hstart
  rw [hcons, includeParts?_quote hquote, ← hcons] at hpath
  rcases View.stringLength_append hpath (slice_ne_nil hstart hstop)
    ((text.drop pos).drop (stop - pos)) with ⟨hlength, -⟩
  rw [slice, List.take_append_drop, hdrop] at hlength
  have hfits : stop - pos ≤ (text.drop pos).length := by
    rw [List.length_drop]
    omega
  rw [hlength, ← hdrop, List.length_take_of_le hfits]
  exact ⟨hstart, rfl⟩

theorem isIncludePath_of_stringLength {stop : Nat} (hquote : isQuote c = true)
    (hdrop : text.drop pos = c :: rest) (hstart : pos < stop)
    (hlength : stringLength (c :: rest) = stop - pos) : IsIncludePath text pos stop := by
  have hfits := Regex.measures_quoted.le_length (c :: rest)
  have htake := Regex.measures_quoted.length_take (c :: rest)
  have hslice : slice text pos stop = (c :: rest).take (stringLength (c :: rest)) := by
    rw [slice, hdrop, hlength]
  have hcons := slice_cons (getElem?_of_drop hdrop) hstart
  refine ⟨?_, ?_⟩
  · rw [hlength, ← hdrop, List.length_drop] at hfits
    omega
  · rw [hcons, includeParts?_quote hquote, ← hcons, hslice, htake, List.length_take_of_le hfits]

theorem isIncludePath_iff (hquote : isQuote c = true) (hdrop : text.drop pos = c :: rest)
    (stop : Nat) :
    IsIncludePath text pos stop ↔ (bodyLength? c rest).map (pos + 2 + ·) = some stop := by
  have hlength := stringLength_quote hquote rest
  constructor
  · intro hpath
    rcases stringLength_of_isIncludePath hquote hdrop hpath with ⟨hstart, hfound⟩
    rw [hlength] at hfound
    cases hbody : bodyLength? c rest with
    | none =>
        rw [hbody, Option.map_none, Option.getD_none] at hfound
        omega
    | some n =>
        rw [hbody, Option.map_some, Option.getD_some] at hfound
        rw [Option.map_some, Option.some.injEq]
        omega
  · intro hstop
    rcases Option.map_eq_some_iff.mp hstop with ⟨n, hbody, rfl⟩
    refine isIncludePath_of_stringLength hquote hdrop (by omega) ?_
    rw [hlength, hbody, Option.map_some, Option.getD_some]
    omega

end Literals

/--
A scan for the end of a string literal, the patterns of tokens and of paths, and the readers of
tokens and of includes all agree on where the literal at a quote ends, or that none begins there.
-/
theorem literalEnd_agrees {text : List Char} {pos : Nat} {mark : Char}
    (hmark : text[pos]? = some mark) (hquote : isQuote mark = true) :
    (∀ last,
      (Positions.literalEnd text pos = .ok (some last) ↔
        Regex.quoted.endAt? text pos = some (last + 1)) ∧
      (Positions.literalEnd text pos = .ok (some last) ↔ IsStringToken text pos (last + 1)) ∧
      (Positions.literalEnd text pos = .ok (some last) ↔ IsIncludePath text pos (last + 1))) ∧
    (Positions.literalEnd text pos = .ok none ↔ Regex.quoted.endAt? text pos = none) ∧
    (Positions.literalEnd text pos = .ok none ↔ ∀ stop, ¬ IsStringToken text pos stop) ∧
    (Positions.literalEnd text pos = .ok none ↔ ∀ stop, ¬ IsIncludePath text pos stop) := by
  rcases List.getElem?_eq_some_iff.mp hmark with ⟨hinside, rfl⟩
  have hdrop := List.drop_eq_getElem_cons hinside
  have hscan := Positions.literalEnd_eq hquote hdrop
  have hpattern := endAt?_quoted hquote hdrop
  have htoken (stop : Nat) := isStringToken_iff hquote hdrop stop
  have hpath (stop : Nat) := isIncludePath_iff hquote hdrop stop
  simp only [hscan, hpattern, htoken, hpath]
  cases bodyLength? text[pos] (text.drop (pos + 1)) with
  | none => simp
  | some n =>
      simp
      omega

/-- A backslash takes the quote behind it along, so the second quote ends no literal. -/
theorem literalEnd_agrees_escaped_quote :
    ['"', '\\', '"', '"', 'x'][0]? = some '"' ∧ isQuote '"' = true ∧
      Regex.quoted.endAt? ['"', '\\', '"', '"', 'x'] 0 = some 4 ∧
      IsStringToken ['"', '\\', '"', '"', 'x'] 0 4 ∧
      IsIncludePath ['"', '\\', '"', '"', 'x'] 0 4 := by
  have hmark : ['"', '\\', '"', '"', 'x'][0]? = some '"' := rfl
  have hscan : Positions.literalEnd ['"', '\\', '"', '"', 'x'] 0 = .ok (some 3) := by decide
  rcases (literalEnd_agrees hmark rfl).1 3 with ⟨hpattern, htoken, hpath⟩
  exact ⟨hmark, rfl, hpattern.mp hscan, htoken.mp hscan, hpath.mp hscan⟩

end Stencil
