import Stencil.Proofs.Expression.Spelling

/-!
# Expressions inside directives

Two scanners look for the end of a directive: one for a closing bracket, one for a
semicolon. Both go over an expression from its first character to its last and stand
behind it as they stood before it. For the brackets of an expression come in pairs,
and what else could stop a scanner lies inside string literals.
-/

namespace Stencil
namespace Grammar

/-! # Pairs of brackets -/

def IsPlain (token : Token) : Prop :=
  ∀ c, (closerOf? c).isSome = true ∨ isCloser c = true →
    ¬ IsSign token (String.singleton c)

inductive Paired : List Token → Prop where
  | nil : Paired []
  | plain {token : Token} {tokens : List Token} :
      IsPlain token → Paired tokens → Paired (token :: tokens)
  | wrapped {opener closer : Char} {opening closing : Token} {inner tokens : List Token} :
      closerOf? opener = some closer →
      IsSign opening (String.singleton opener) →
      Paired inner →
      IsSign closing (String.singleton closer) →
      Paired tokens →
      Paired (opening :: (inner ++ closing :: tokens))

theorem Paired.append {before after : List Token} (hbefore : Paired before)
    (hafter : Paired after) :
    Paired (before ++ after) := by
  induction hbefore with
  | nil => exact hafter
  | plain hplain _ ih => exact .plain hplain ih
  | wrapped hpair hopening hinner hclosing _ _ ih =>
      rw [List.cons_append, List.append_assoc, List.cons_append]
      exact .wrapped hpair hopening hinner hclosing ih

theorem isPlain_of_kind {token : Token} (h : token.kind ≠ .operator) : IsPlain token := by
  intro c _ hsign
  exact h hsign.1

theorem isPlain_of_sign {token : Token} {sign : String} (h : IsSign token sign)
    (hsign : sign ∉ ["(", "[", "\x7b", ")", "]", "\x7d"]) :
    IsPlain token := by
  intro c hc hbracket
  rw [h.unique hbracket] at hsign
  apply hsign
  cases hc with
  | inl hopen =>
      unfold closerOf? at hopen
      split at hopen
      · decide
      · decide
      · decide
      · cases hopen
  | inr hclose =>
      simp only [isCloser, Bool.or_eq_true, beq_iff_eq] at hclose
      rcases hclose with (rfl | rfl) | rfl <;> decide

theorem Paired.bracketed {before inner : List Token} {opening closing : Token}
    (hbefore : Paired before) {opener closer : Char} (hpair : closerOf? opener = some closer)
    (hopening : IsSign opening (String.singleton opener)) (hinner : Paired inner)
    (hclosing : IsSign closing (String.singleton closer)) :
    Paired (before ++ opening :: (inner ++ [closing])) :=
  hbefore.append (.wrapped hpair hopening hinner hclosing .nil)

theorem Paired.joined {before after : List Token} {token : Token} (hbefore : Paired before)
    (hplain : IsPlain token) (hafter : Paired after) :
    Paired (before ++ token :: after) :=
  hbefore.append (.plain hplain hafter)

theorem Joins.isPlain {rank : Rank} {sign : String} {join : Expr → Expr → Expr} {token : Token}
    (h : Joins rank sign join) (hsign : IsSign token sign) : IsPlain token :=
  isPlain_of_sign hsign (by cases h <;> decide)

theorem Precedes.isPlain {sign : String} {op : UnaryOp} {token : Token}
    (h : Precedes sign op) (hsign : IsSign token sign) : IsPlain token :=
  isPlain_of_sign hsign (by cases h <;> decide)

theorem Keys.isPlain {token : Token} {key : Text} (h : Keys token key) : IsPlain token :=
  isPlain_of_kind (by cases h <;> simp_all)

theorem Derives.paired {phrase : Phrase} {tokens : List Token} (h : Derives phrase tokens) :
    Paired tokens := by
  induction h with
  | tighter _ _ ih => exact ih
  | choice _ hquestion _ hcolon _ ihTest ihYes ihNo =>
      exact ihTest.joined (isPlain_of_sign hquestion (by decide))
        (ihYes.joined (isPlain_of_sign hcolon (by decide)) ihNo)
  | joined hjoins _ _ hsign _ ihLeft ihRight =>
      exact ihLeft.joined (hjoins.isPlain hsign) ihRight
  | preceded hprecedes hsign _ ih => exact .plain (hprecedes.isPlain hsign) ih
  | property _ hdot hword ih =>
      exact ih.joined (isPlain_of_sign hdot (by decide))
        (.plain (isPlain_of_kind (by simp [hword])) .nil)
  | subscript _ hopening _ hclosing ihTarget ihKey =>
      exact ihTarget.bracketed (rfl : closerOf? '[' = some ']') hopening ihKey hclosing
  | call _ hopening _ hclosing ihCallee ihArgs =>
      exact ihCallee.bracketed (rfl : closerOf? '(' = some ')') hopening ihArgs hclosing
  | number hkind => exact .plain (isPlain_of_kind (by simp [hkind])) .nil
  | string hkind => exact .plain (isPlain_of_kind (by simp [hkind])) .nil
  | word hkind => exact .plain (isPlain_of_kind (by simp [hkind])) .nil
  | group hopening _ hclosing ih =>
      exact Paired.nil.bracketed (rfl : closerOf? '(' = some ')') hopening ih hclosing
  | array hopening _ hclosing ih =>
      exact Paired.nil.bracketed (rfl : closerOf? '[' = some ']') hopening ih hclosing
  | object hopening _ hclosing ih =>
      exact Paired.nil.bracketed (rfl : closerOf? '\x7b' = some '\x7d') hopening ih hclosing
  | noItem => exact .nil
  | lastItem _ ih => exact ih
  | items _ hcomma _ ihFirst ihOthers =>
      exact ihFirst.joined (isPlain_of_sign hcomma (by decide)) ihOthers
  | pair hkeys hcolon _ ih =>
      exact .plain hkeys.isPlain (.plain (isPlain_of_sign hcolon (by decide)) ih)
  | shorthand hkind => exact .plain (isPlain_of_kind (by simp [hkind])) .nil
  | noEntry => exact .nil
  | lastEntry _ ih => exact ih
  | entries _ hcomma _ ihFirst ihOthers =>
      exact ihFirst.joined (isPlain_of_sign hcomma (by decide)) ihOthers

/-! # What the scanners pass over -/

/-- Both scanners go on behind a text as they would have gone on in its place. -/
structure Passed (w : List Char) : Prop where
  balanced (directive : String) (top : Char) (below rest : List Char) :
    balancedLength directive top below 0 (w ++ rest) =
      (balancedLength directive top below 0 rest).map (· + w.length)
  statement (depth : Int) (rest : List Char) :
    statementLength? depth 0 (w ++ rest) = (statementLength? depth 0 rest).map (· + w.length)

def marks : List Char :=
  ['"', '\'', '(', '[', '\x7b', ')', ']', '\x7d', ';']

theorem except_map_map {ε : Type} (result : Except ε Nat) (m n : Nat) :
    (result.map (· + m)).map (· + n) = result.map (· + (m + n)) := by
  cases result with
  | error e => rfl
  | ok a => simp [Except.map, Nat.add_assoc]

theorem option_map_map (result : Option Nat) (m n : Nat) :
    (result.map (· + m)).map (· + n) = result.map (· + (m + n)) := by
  cases result with
  | none => rfl
  | some a => simp [Nat.add_assoc]

theorem Passed.nil : Passed [] := by
  constructor
  · intro directive top below rest
    rw [List.nil_append]
    cases balancedLength directive top below 0 rest <;> rfl
  · intro depth rest
    rw [List.nil_append]
    cases statementLength? depth 0 rest <;> rfl

theorem Passed.append {w v : List Char} (hw : Passed w) (hv : Passed v) : Passed (w ++ v) := by
  constructor
  · intro directive top below rest
    rw [List.append_assoc, hw.balanced, hv.balanced, except_map_map, List.length_append,
      Nat.add_comm v.length]
  · intro depth rest
    rw [List.append_assoc, hw.statement, hv.statement, option_map_map, List.length_append,
      Nat.add_comm v.length]

theorem passed_char {c : Char} (h : c ∉ marks) : Passed [c] := by
  simp only [marks, List.mem_cons, List.not_mem_nil, or_false, not_or] at h
  have hquote : isQuote c = false := by simp [isQuote, h]
  have hopen : closerOf? c = none := by simp [closerOf?, h]
  have hclose : isCloser c = false := by simp [isCloser, h]
  constructor
  · intro directive top below rest
    simp [balancedLength, hquote, hopen, hclose]
  · intro depth rest
    simp [statementLength?, hquote, hopen, hclose, h]

theorem passed_chars {w : List Char} (h : ∀ c ∈ w, c ∉ marks) : Passed w := by
  induction w with
  | nil => exact .nil
  | cons c rest ih =>
      have hrest : ∀ d ∈ rest, d ∉ marks := by
        intro d hd
        exact h d (List.mem_cons_of_mem c hd)
      exact (passed_char (h c (by simp))).append (ih hrest)

def isMarkless (w : List Char) : Bool :=
  w.all fun c => !marks.contains c

theorem not_mem_marks_of_isMarkless {w : List Char} (h : isMarkless w = true) :
    ∀ c ∈ w, c ∉ marks := by
  intro c hc hmark
  have hcontains := List.all_eq_true.mp h c hc
  rw [List.contains_iff_mem.mpr hmark] at hcontains
  cases hcontains

theorem passed_markless {w : List Char} (h : isMarkless w = true) : Passed w :=
  passed_chars (not_mem_marks_of_isMarkless h)

theorem not_mem_marks {p : Char → Bool} (hp : marks.any p = false) {c : Char}
    (hc : p c = true) :
    c ∉ marks := by
  intro hmark
  exact List.any_eq_false.mp hp c hmark hc

theorem Passed.wrapped {opener closer : Char} {inner : List Char} (h : Passed inner)
    (hpair : closerOf? opener = some closer) :
    Passed (opener :: (inner ++ [closer])) := by
  have hbrackets : isQuote opener = false ∧ isQuote closer = false ∧
      closerOf? closer = none ∧ isCloser closer = true := by
    unfold closerOf? at hpair
    split at hpair <;> cases hpair <;> decide
  rcases hbrackets with ⟨hopener, hcloser, hnone, hclose⟩
  have hlength : (opener :: (inner ++ [closer])).length = 1 + inner.length + 1 := by
    simp only [List.length_cons, List.length_append, List.length_nil]
    omega
  constructor
  · intro directive top below rest
    have hinner := h.balanced directive closer (top :: below) (closer :: rest)
    have hclosing : balancedLength directive closer (top :: below) 0 (closer :: rest) =
        (balancedLength directive top below 0 rest).map (· + 1) := by
      simp [balancedLength, hcloser, hnone, hclose]
    rw [hclosing, except_map_map] at hinner
    rw [hlength]
    simp only [List.cons_append, List.append_assoc, List.nil_append, balancedLength, hopener,
      Bool.false_eq_true, if_false, hpair, hinner, except_map_map]
  · intro depth rest
    have hinner := h.statement (depth + 1) (closer :: rest)
    have hclosing : statementLength? (depth + 1) 0 (closer :: rest) =
        (statementLength? depth 0 rest).map (· + 1) := by
      simp [statementLength?, hcloser, hnone, hclose]
    rw [hclosing, option_map_map] at hinner
    rw [hlength]
    simp only [List.cons_append, List.append_assoc, List.nil_append, statementLength?, hopener,
      Bool.false_eq_true, if_false, hpair, Option.isSome_some, if_true, hinner, option_map_map]

/-! # String literals -/

theorem balancedLength_skip (directive : String) (top : Char) (below w rest : List Char) :
    balancedLength directive top below w.length (w ++ rest) =
      (balancedLength directive top below 0 rest).map (· + w.length) := by
  induction w with
  | nil => exact Passed.nil.balanced directive top below rest
  | cons c others ih =>
      rw [List.length_cons, List.cons_append, balancedLength, ih, except_map_map]

theorem statementLength?_skip (depth : Int) (w rest : List Char) :
    statementLength? depth w.length (w ++ rest) =
      (statementLength? depth 0 rest).map (· + w.length) := by
  induction w with
  | nil => exact Passed.nil.statement depth rest
  | cons c others ih =>
      rw [List.length_cons, List.cons_append, statementLength?, ih, option_map_map]

theorem passed_quoted {mark : Char} {body : List Char} (hmark : isQuote mark = true)
    (hbody : QuotedBody mark body) :
    Passed (mark :: (body ++ [mark])) := by
  have hslash := ne_slash_of_isQuote hmark
  have hlength : ∀ rest, bodyLength? mark ((body ++ [mark]) ++ rest) = some body.length := by
    intro rest
    rw [List.append_assoc]
    exact bodyLength?_of_quotedBody hbody hslash rest
  constructor
  · intro directive top below rest
    have hskip := balancedLength_skip directive top below (body ++ [mark]) rest
    rw [List.length_append, List.length_singleton] at hskip
    rw [List.cons_append, balancedLength.eq_def]
    dsimp only
    rw [if_pos hmark, hlength]
    dsimp only
    rw [hskip, except_map_map, List.length_cons, List.length_append, List.length_singleton]
  · intro depth rest
    have hskip := statementLength?_skip depth (body ++ [mark]) rest
    rw [List.length_append, List.length_singleton] at hskip
    rw [List.cons_append, statementLength?.eq_def]
    dsimp only
    rw [if_pos hmark, hlength]
    dsimp only
    rw [hskip, option_map_map, List.length_cons, List.length_append, List.length_singleton]

/-! # Spellings of tokens -/

theorem passed_blanks {cs : List Char} (h : ∀ c ∈ cs, Text.isBlank c = true) : Passed cs :=
  passed_chars fun c hc => not_mem_marks (by decide) (h c hc)

theorem passed_number {w : List Char} (h : SpellsKind .number w) : Passed w := by
  apply passed_chars
  intro c hc
  cases h c hc with
  | inl hdigit => exact not_mem_marks (by decide) hdigit
  | inr hmem =>
      have hsigns : isMarkless ['.', 'e', 'E', '+', '-'] = true := by decide
      exact not_mem_marks_of_isMarkless hsigns c hmem

theorem passed_name {w : List Char} (h : isName w = true) : Passed w := by
  cases w with
  | nil => exact .nil
  | cons c rest =>
      simp only [isName, Bool.and_eq_true, List.all_eq_true] at h
      apply passed_chars
      intro d hd
      cases hd with
      | head => exact not_mem_marks (by decide) h.1
      | tail _ hd => exact not_mem_marks (by decide) (h.2 d hd)

theorem passed_operator {token : Token} {w : List Char} (hkind : token.kind = .operator)
    (htext : token.text = String.ofList w) (h : SpellsKind .operator w)
    (hplain : IsPlain token) :
    Passed w := by
  cases h with
  | inl hlong =>
      have hall : longOperators.all isMarkless = true := by decide
      exact passed_markless (List.all_eq_true.mp hall w hlong)
  | inr hshort =>
      rcases hshort with ⟨c, hc, rfl⟩
      apply passed_char
      intro hmark
      have hall : shortOperators.all (fun c =>
          !marks.contains c || ((closerOf? c).isSome || isCloser c)) = true := by
        decide
      have hbracket := List.all_eq_true.mp hall c hc
      rw [List.contains_iff_mem.mpr hmark, Bool.not_true, Bool.false_or, Bool.or_eq_true]
        at hbracket
      exact hplain c hbracket ⟨hkind, htext⟩

theorem passed_token {token : Token} {w : List Char} (h : SpellsKind token.kind w)
    (htext : token.text = String.ofList w) (hplain : IsPlain token) :
    Passed w := by
  cases hkind : token.kind with
  | number => exact passed_number (by rwa [hkind] at h)
  | string =>
      rw [hkind] at h
      rcases h with ⟨mark, body, hmark, hbody, rfl⟩
      exact passed_quoted hmark hbody
  | name => exact passed_name (by rwa [hkind] at h)
  | operator => exact passed_operator hkind htext (by rwa [hkind] at h) hplain
  | stop =>
      rw [hkind] at h
      cases h

theorem spelling_of_bracket {token : Token} {c : Char} {w : List Char}
    (h : IsSign token (String.singleton c)) (htext : token.text = String.ofList w) :
    w = [c] := by
  rw [h.2] at htext
  simpa using congrArg String.toList htext.symm

theorem Paired.passed {tokens : List Token} (h : Paired tokens) {cs : List Char}
    (hcs : Spells tokens cs) :
    Passed cs := by
  induction h generalizing cs with
  | nil => exact passed_blanks hcs.blank_of_nil
  | plain hplain _ ih =>
      rcases hcs.exists_of_cons with ⟨blanks, w, rest, rfl, hblanks, hkind, htext, hrest⟩
      exact (passed_blanks hblanks).append ((passed_token hkind htext hplain).append (ih hrest))
  | wrapped hpair hopening _ hclosing _ ihInner ihRest =>
      rcases hcs.exists_of_cons with ⟨blanks, w, rest, rfl, hblanks, _, htext, hrest⟩
      rcases spelling_of_bracket hopening htext with rfl
      rcases hrest.exists_of_append with ⟨inner, back, rfl, hinner, hback⟩
      rcases hback.exists_of_cons with ⟨before, v, after, rfl, hbefore, _, htext, hafter⟩
      rcases spelling_of_bracket hclosing htext with rfl
      have hwrapped := ((ihInner hinner).append (passed_blanks hbefore)).wrapped hpair
      have hwhole := (passed_blanks hblanks).append (hwrapped.append (ihRest hafter))
      simpa using hwhole

/-! # Expressions -/

theorem exists_of_trim (cs : List Char) :
    ∃ front back, cs = front ++ (Text.trim cs ++ back) ∧
      (∀ c ∈ front, Text.isBlank c = true) ∧ ∀ c ∈ back, Text.isBlank c = true := by
  refine ⟨cs.takeWhile Text.isBlank,
    ((Text.trimStart cs).reverse.takeWhile Text.isBlank).reverse, ?_, ?_, ?_⟩
  · rw [Text.trim, Text.trimEnd, ← List.reverse_append, List.takeWhile_append_dropWhile,
      List.reverse_reverse, Text.trimStart, List.takeWhile_append_dropWhile]
  · intro c hc
    exact List.mem_takeWhile_imp hc
  · intro c hc
    exact List.mem_takeWhile_imp (List.mem_reverse.mp hc)

theorem exists_of_compile {source : String} {tree : Expr} (h : Expr.compile source = .ok tree) :
    ∃ tokens, tokenize (Text.strip source) = .ok tokens ∧
      Derives (.expr .conditional tree) tokens.dropLast := by
  cases htokens : tokenize (Text.strip source) with
  | error e =>
      rw [Expr.compile, htokens] at h
      cases h
  | ok tokens => exact ⟨tokens, rfl, (compile_eq_ok_iff htokens tree).mp h⟩

theorem passed_of_compile {source : String} {tree : Expr}
    (h : Expr.compile source = .ok tree) :
    Passed source.toList := by
  rcases exists_of_compile h with ⟨tokens, htokens, hderives⟩
  have hspells := spells_of_tokenize htokens
  rw [Text.strip, String.toList_ofList] at hspells
  rcases exists_of_trim source.toList with ⟨front, back, hsource, hfront, hback⟩
  rw [hsource]
  exact (passed_blanks hfront).append
    ((hderives.paired.passed hspells).append (passed_blanks hback))

end Grammar
end Stencil
