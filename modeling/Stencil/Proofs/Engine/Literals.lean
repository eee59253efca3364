import Stencil.Proofs.Engine.Verbatim
import Stencil.Proofs.Expression.Lossless
import Stencil.Proofs.View.Quoting

/-!
# Texts as string literals

Every text can be written as a string literal: a backslash goes before each backslash and each
quote of the kind around it, and nothing else needs one. Wherever such a literal is read, as an
expression, in the output or as the path of an include, it stands for the text again.
-/

namespace Stencil

open Grammar

def escaped (mark : Char) (cs : List Char) : List Char :=
  cs.flatMap fun c => if c == '\\' || c == mark then ['\\', c] else [c]

def written (mark : Char) (s : String) : String :=
  String.ofList (mark :: (escaped mark s.toList ++ [mark]))

/-! # Escapes -/

section Escapes

variable {mark : Char} (hmark : isQuote mark = true)

theorem escaped_cons_marked {c : Char} (hc : c = '\\' ∨ c = mark) (rest : List Char) :
    escaped mark (c :: rest) = '\\' :: c :: escaped mark rest := by
  have htest : (c == '\\' || c == mark) = true := by simpa using hc
  rw [escaped, List.flatMap_cons, htest]
  rfl

theorem escaped_cons_plain {c : Char} (hslash : c ≠ '\\') (hc : c ≠ mark) (rest : List Char) :
    escaped mark (c :: rest) = c :: escaped mark rest := by
  have htest : (c == '\\' || c == mark) = false := by simp [hslash, hc]
  rw [escaped, List.flatMap_cons, htest]
  rfl

theorem quotedBody_escaped (mark : Char) (cs : List Char) : QuotedBody mark (escaped mark cs) := by
  induction cs with
  | nil => exact .nil
  | cons c rest ih =>
      by_cases hc : c = '\\' ∨ c = mark
      · rw [escaped_cons_marked hc]
        exact .escaped ih
      · rw [not_or] at hc
        rw [escaped_cons_plain hc.1 hc.2]
        exact .plain hc.2 hc.1 ih

theorem unescape_cons_plain {c : Char} (hslash : c ≠ '\\') (rest : List Char) :
    unescape (c :: rest) = .char c :: unescape rest := by
  rw [unescape.eq_def]
  split <;> simp_all

theorem unescape_cons_slash {c : Char} (hc : c ≠ 'u') (hsame : escapedChar c = c)
    (rest : List Char) : unescape ('\\' :: c :: rest) = .char c :: unescape rest := by
  rw [unescape.eq_def]
  split
  · rename_i hnil
    cases hnil
  · rename_i hquad
    cases hquad
    exact absurd rfl hc
  · rename_i hpair
    cases hpair
    rw [hsame]
  · rename_i hother hpair
    cases hpair
    exact absurd rfl (hother c rest rfl)

include hmark in
theorem unescape_escaped (cs : List Char) : unescape (escaped mark cs) = cs.map .char := by
  induction cs with
  | nil => rfl
  | cons c rest ih =>
      rw [List.map_cons, ← ih]
      by_cases hc : c = '\\' ∨ c = mark
      · have hplain : c ≠ 'u' ∧ escapedChar c = c := by
          rcases hc with rfl | rfl
          · decide
          · rcases eq_of_isQuote hmark with rfl | rfl <;> decide
        rw [escaped_cons_marked hc, unescape_cons_slash hplain.1 hplain.2]
      · rw [not_or] at hc
        rw [escaped_cons_plain hc.1 hc.2, unescape_cons_plain hc.1]

/-! # The literal of a text -/

theorem toList_written (mark : Char) (s : String) :
    (written mark s).toList = mark :: (escaped mark s.toList ++ [mark]) :=
  String.toList_ofList

include hmark

theorem unquote_written (s : String) : unquote (written mark s) = s := by
  rw [unquote, toList_written, List.drop_succ_cons, List.drop_zero, List.dropLast_concat,
    unescape_escaped hmark]
  rfl

theorem bodyLength?_escaped (cs : List Char) :
    bodyLength? mark (escaped mark cs ++ [mark]) = some (escaped mark cs).length :=
  bodyLength?_of_quotedBody (quotedBody_escaped mark cs) (ne_slash_of_isQuote hmark) []

theorem stringLength_written (s : String) :
    stringLength (written mark s).toList = (written mark s).toList.length := by
  rw [toList_written, stringLength_quote hmark, bodyLength?_escaped hmark]
  simp

theorem isTrimmed_written (s : String) : Text.IsTrimmed (written mark s).toList where
  filled := by simp [toList_written]
  first := by simp [toList_written, isBlank_of_isQuote hmark]
  last := by
    rw [toList_written, ← List.cons_append, List.getLast?_concat]
    simp [isBlank_of_isQuote hmark]

theorem lexeme?_written (s : String) :
    lexeme? (written mark s).toList = some (some .string, (written mark s).toList.length) := by
  rw [toList_written, lexeme?_quote hmark, bodyLength?_escaped hmark]
  simp

theorem tokenize_written (s : String) :
    tokenize (written mark s) =
      .ok [⟨.string, written mark s, 0⟩, ⟨.stop, "", (written mark s).toList.length⟩] := by
  have hscans : Scans (written mark s).toList 0 _ (0 + (written mark s).toList.length) :=
    .token (lexeme?_written hmark s) .here
  rw [Nat.zero_add, List.drop_zero, List.take_length, String.ofList_toList] at hscans
  have hread := hscans.tokenize_eq
  rwa [String.ofList_toList] at hread

theorem strip_written (s : String) : Text.strip (written mark s) = written mark s :=
  Text.strip_of_isTrimmed (isTrimmed_written hmark s)

theorem compile_written (s : String) :
    Expr.compile (written mark s) = .ok (.literal (.str s)) := by
  have htokens : tokenize (Text.strip (written mark s)) =
      .ok [⟨.string, written mark s, 0⟩, ⟨.stop, "", (written mark s).toList.length⟩] := by
    rw [strip_written hmark]
    exact tokenize_written hmark s
  rw [compile_eq_ok_iff htokens, ← unquote_written hmark s]
  exact (@Derives.string ⟨.string, written mark s, 0⟩ rfl).of_primary

/-! # Directives with the literal of a text -/

theorem parse_include_written {s : String} (hpath : Text.saysNothing s = false) :
    View.parse ("@include(" ++ written mark s ++ ")") = .ok [.inclusion 1 s none] := by
  have hpassed : Passed (written mark s).toList := by
    rw [toList_written]
    exact passed_quoted hmark (quotedBody_escaped mark s.toList)
  have hread : readInclude (written mark s).toList = .ok (.inclusion s none) := by
    have hparts : includeParts? (written mark s).toList =
        some ((written mark s).toList, none) := by
      have hlength := stringLength_written hmark s
      rw [toList_written] at hlength ⊢
      exact (includeParts?_quote hmark _).mpr hlength
    rw [readInclude, hparts]
    dsimp only
    rw [String.ofList_toList, unquote_written hmark, hpath]
    rfl
  have hdirective := (View.read?_include _).trans (congrArg some
    (View.readHeader_of_passed hpassed hread "include"
      ['i', 'n', 'c', 'l', 'u', 'd', 'e', '('] []))
  refine View.parse_directive ?_ hdirective ?_ rfl
  · simp
  · simp
    omega

theorem renderAll_written (host : Host) (enter : Inclusion → Rendering Text) (scope line : Nat)
    (s : String) (state : RenderState) :
    renderAll host enter scope [.interpolation line (written mark s)] state = (.ok s, state) := by
  have heval : evalSource host scope (written mark s) state.store =
      (.ok (.str s), state.store) := by
    rw [evalSource, compile_written hmark]
    rfl
  have hrest : renderAll host enter scope [] state = (.ok "", state) := rfl
  rw [Rendering.renderAll_cons_ok (Rendering.renderNode_text heval) hrest, Text.append_empty]

theorem renderSource_written (engine : Engine) (host : Host) (view : Option Text) {data : Value}
    {entries : Entries Value} (hdata : renderData engine.store data = .ok entries) (s : String) :
    ∃ rendered,
      (engine.renderSource host ("@\x7b" ++ written mark s ++ "\x7d") view data).1 =
        .ok rendered ∧ rendered.output = s := by
  have hparse := View.parse_interpolation (compile_written hmark s)
  rw [strip_written hmark] at hparse
  rw [Engine.renderSource_fst hparse hdata, renderView, renderAll_written hmark]
  exact ⟨_, rfl, rfl⟩

end Escapes

/--
Every text can be written as a string literal. As an expression the literal is the text, as an
interpolation it gives the text, and as the path of an include it is the text unless that is blank.
-/
theorem written_reads_back {mark : Char} (hmark : isQuote mark = true) (s : String) :
    Expr.compile (written mark s) = .ok (.literal (.str s)) ∧
    (∀ (engine : Engine) (host : Host) (view : Option Text) (data : Value)
      (entries : Entries Value), renderData engine.store data = .ok entries →
        ∃ rendered,
          (engine.renderSource host ("@\x7b" ++ written mark s ++ "\x7d") view data).1 =
            .ok rendered ∧ rendered.output = s) ∧
    (Text.saysNothing s = false →
      View.parse ("@include(" ++ written mark s ++ ")") = .ok [.inclusion 1 s none]) := by
  refine ⟨compile_written hmark s, ?_, parse_include_written hmark⟩
  intro engine host view data entries hdata
  exact renderSource_written hmark engine host view hdata s

/-- What looks like an escape, a quote, the end of a directive or the beginning of one is text. -/
theorem written_reads_back_lookalikes :
    let s := "\\u0041'\x7d;\"@\x7b)"
    let literal := "'\\\\u0041\\'\x7d;\"@\x7b)'"
    isQuote '\'' = true ∧ written '\'' s = literal ∧
      Expr.compile literal = .ok (.literal (.str s)) ∧
      renderData Engine.viewless.store .null = .ok [] ∧
      (∃ rendered,
        (Engine.viewless.renderSource .none ("@\x7b" ++ literal ++ "\x7d") none .null).1 =
          .ok rendered ∧ rendered.output = s) ∧
      Text.saysNothing s = false ∧
      View.parse ("@include(" ++ literal ++ ")") = .ok [.inclusion 1 s none] := by
  intro s literal
  have hliteral : written '\'' s = literal := by decide
  have hsays : Text.saysNothing s = false := by decide
  have hmark : isQuote '\'' = true := rfl
  rcases written_reads_back hmark s with ⟨hcompile, hrender, hparse⟩
  rw [hliteral] at hcompile hrender hparse
  exact ⟨hmark, hliteral, hcompile, rfl, hrender Engine.viewless .none none .null [] rfl, hsays,
    hparse hsays⟩

end Stencil
