import Stencil.Proofs.View.NormalForm

/-!
# Directives and what follows them

Whether a directive begins at an at sign, what it means and how far it goes does not depend on what
stands behind a separator: a character that goes on with no name, no blanks and no path, and opens
no bracket. So a well-formed directive stays what it is when a text is continued with a separator,
and literal text stays literal.
-/

namespace Stencil

open Grammar

/-- Nothing that a directive ends with goes on with the character, and none begins with it. -/
structure IsSeparator (c : Char) : Prop where
  blank : Text.isBlank c = false
  name : isNameChar c = false
  other : c ∉ ['@', '.', '(', '\x7b']

/-! # Statements -/

theorem Unended.statementLength?_append {depth final : Int} {w : List Char}
    (h : Unended depth w final) (rest : List Char) :
    statementLength? depth 0 (w ++ rest) = (statementLength? final 0 rest).map (· + w.length) := by
  induction h with
  | nil => exact Passed.nil.statement _ rest
  | @plain depth final c w hc hend _ ih =>
      simp only [isFraming, Bool.or_eq_false_iff] at hc
      simp [statementLength?, hc, hend, ih]
  | @semicolon depth final w hdepth _ ih =>
      have hopen : ¬ depth ≤ 0 := by omega
      simp [statementLength?, isQuote, closerOf?, isCloser, hopen, ih]
  | @literal depth final mark body w hmark hbody _ ih =>
      have hquoted := (passed_quoted hmark hbody).statement depth (w ++ rest)
      have hsame : mark :: (body ++ mark :: w) ++ rest =
          mark :: (body ++ [mark]) ++ (w ++ rest) := by
        simp
      have hlength : (mark :: (body ++ mark :: w)).length =
          w.length + (mark :: (body ++ [mark])).length := by
        simp only [List.length_cons, List.length_append, List.length_nil]
        omega
      rw [hsame, hquoted, ih, option_map_map, hlength]
  | @opener depth final c w hc _ ih =>
      have hquote : isQuote c = false := by
        cases hpair : closerOf? c with
        | none => simp [hpair] at hc
        | some closer => exact (brackets_of_closerOf? hpair).1
      simp [statementLength?, hquote, hc, ih]
  | @closer depth final c w hc _ ih =>
      have hplain : isQuote c = false ∧ closerOf? c = none := by
        simp only [isCloser, Bool.or_eq_true, beq_iff_eq] at hc
        rcases hc with (rfl | rfl) | rfl <;> decide
      simp [statementLength?, hplain, hc, ih]

theorem statementLength?_append {cs : List Char} {n : Nat} (h : statementLength? 0 0 cs = some n)
    (more : List Char) :
    n < cs.length ∧ statementLength? 0 0 (cs ++ more) = some n := by
  rcases exists_of_statementLength? h with
    ⟨skipped, w, after, final, rfl, hskipped, rfl, hw, hfinal⟩
  cases List.length_eq_zero_iff.mp hskipped
  have hend : statementLength? final 0 (';' :: (after ++ more)) = some 0 := by
    simp [statementLength?, isQuote, closerOf?, isCloser, hfinal]
  refine ⟨by simp, ?_⟩
  rw [List.nil_append, List.append_assoc, List.cons_append, hw.statementLength?_append, hend]
  simp

/-! # Brackets -/

theorem balancedLength_append {directive : String} {opener closer : Char}
    (hpair : closerOf? opener = some closer) {cs : List Char} {n : Nat}
    (h : balancedLength directive closer [] 0 cs = .ok n) (more : List Char) :
    n < cs.length ∧ balancedLength directive closer [] 0 (cs ++ more) = .ok n := by
  rcases enclosed_of_balancedLength h with ⟨inner, after, rfl, rfl, hinner⟩
  refine ⟨by simp, ?_⟩
  rw [List.append_assoc, List.cons_append, hinner.balancedLength_append,
    balancedLength_outermost hpair]
  simp [Except.map]

theorem drop_append_of_lt {cs : List Char} {start n : Nat} (h : n < (cs.drop start).length)
    (more : List Char) : (cs ++ more).drop start = cs.drop start ++ more := by
  rw [List.length_drop] at h
  exact List.drop_append_of_le_length (by omega)

theorem readInterpolation_append {cs : List Char} {found : Directive × Nat}
    (h : readInterpolation cs = .ok found) (more : List Char) :
    readInterpolation (cs ++ more) = .ok found := by
  rcases bind_eq_ok_iff.mp h with ⟨n, hlength, hmeaning⟩
  have hpair : closerOf? '\x7b' = some '\x7d' := rfl
  rcases balancedLength_append hpair hlength more with ⟨hinside, hmore⟩
  rw [readInterpolation, drop_append_of_lt hinside, hmore, bind_ok,
    List.take_append_of_le_length (Nat.le_of_lt hinside)]
  exact hmeaning

theorem readHeader_append {keyword : String} {cs : List Char} {start : Nat}
    {meaning : List Char → Except StructureFault Directive} {found : Directive × Nat}
    (h : readHeader keyword cs start meaning = .ok found) (more : List Char) :
    readHeader keyword (cs ++ more) start meaning = .ok found := by
  rcases bind_eq_ok_iff.mp h with ⟨n, hlength, hmeaning⟩
  have hpair : closerOf? '(' = some ')' := rfl
  rcases balancedLength_append hpair hlength more with ⟨hinside, hmore⟩
  rw [readHeader, drop_append_of_lt hinside, hmore, bind_ok,
    List.take_append_of_le_length (Nat.le_of_lt hinside)]
  exact hmeaning

/-! # Names and words before a separator -/

section Separator

variable {c : Char} (hc : IsSeparator c) (rest : List Char)

include hc

theorem blankLength_separator (cs : List Char) :
    blankLength (cs ++ c :: rest) = blankLength cs := by
  induction cs with
  | nil => simp [blankLength, hc.blank]
  | cons d others ih =>
      rw [blankLength, blankLength] at ih
      by_cases hd : Text.isBlank d = true
      · simp [blankLength, hd, ih]
      · simp [blankLength, hd]

theorem IsSeparator.isNameStart : isNameStart c = false := by
  cases h : Stencil.isNameStart c with
  | false => rfl
  | true => exact absurd (isNameChar_of_isNameStart h) (by simp [hc.name])

theorem nameLength_separator (cs : List Char) : nameLength (cs ++ c :: rest) = nameLength cs := by
  have hstop : ∀ others : List Char,
      (others ++ c :: rest).takeWhile isNameChar = others.takeWhile isNameChar := by
    intro others
    induction others with
    | nil => simp [hc.name]
    | cons d more ih => by_cases hd : isNameChar d = true <;> simp [hd, ih]
  cases cs with
  | nil => simp [nameLength, hc.isNameStart]
  | cons d others => simp [nameLength, hstop]

theorem pathTailLength_separator (cs : List Char) :
    pathTailLength (cs ++ c :: rest) = pathTailLength cs := by
  have hpoint : c ≠ '.' := by
    rintro rfl
    exact hc.other (by decide)
  induction cs with
  | nil => simp [pathTailLength, hc.name, hpoint]
  | cons d others ih =>
      cases others with
      | nil => simp [pathTailLength, hc.name, hpoint, hc.isNameStart]
      | cons e more =>
          rw [List.cons_append] at ih
          rw [List.cons_append, List.cons_append, pathTailLength.eq_def,
            pathTailLength.eq_def (d :: e :: more)]
          dsimp only
          rw [ih]

theorem pathLength_separator (cs : List Char) : pathLength (cs ++ c :: rest) = pathLength cs := by
  cases cs with
  | nil => simp [pathLength, hc.isNameStart]
  | cons d others => simp [pathLength, pathTailLength_separator hc]

theorem isPrefixOf_separator {word : List Char} (hword : word.all isNameChar = true)
    (cs : List Char) : word.isPrefixOf (cs ++ c :: rest) = word.isPrefixOf cs := by
  induction word generalizing cs with
  | nil => simp
  | cons d others ih =>
      rw [List.all_cons, Bool.and_eq_true] at hword
      cases cs with
      | nil =>
          have hne : (d == c) = false := by
            refine beq_eq_false_iff_ne.mpr ?_
            rintro rfl
            simp [hc.name] at hword
          simp [List.isPrefixOf, hne]
      | cons e more => simp [List.isPrefixOf, ih hword.2]

omit hc in
theorem drop_separator {word : String} {cs : List Char} (h : word.toList.isPrefixOf cs = true) :
    (cs ++ c :: rest).drop word.length = cs.drop word.length ++ c :: rest :=
  List.drop_append_of_le_length (List.isPrefixOf_iff_prefix.mp h).length_le

theorem headerStart?_separator {keyword : String} (hkeyword : keyword.toList.all isNameChar = true)
    (cs : List Char) : headerStart? keyword (cs ++ c :: rest) = headerStart? keyword cs := by
  unfold headerStart?
  rw [isPrefixOf_separator hc rest hkeyword]
  split
  next hfirst =>
      have hdrop : (cs ++ c :: rest).drop keyword.length = cs.drop keyword.length ++ c :: rest :=
        drop_separator rest hfirst
      have hother : ¬ c = '(' := by
        rintro rfl
        exact hc.other (by decide)
      dsimp only
      rw [hdrop, blankLength_separator hc, ← List.drop_drop, ← List.drop_drop, hdrop,
        List.drop_append_of_le_length]
      · cases (cs.drop keyword.length).drop (blankLength (cs.drop keyword.length)) <;> simp [hother]
      · exact (List.takeWhile_prefix _).length_le
  next => rfl

theorem isWordFirst_separator {word : String} (hword : word.toList.all isNameChar = true)
    (cs : List Char) : isWordFirst word (cs ++ c :: rest) = isWordFirst word cs := by
  unfold isWordFirst
  rw [isPrefixOf_separator hc rest hword]
  cases hfirst : word.toList.isPrefixOf cs with
  | false => simp
  | true =>
      rw [drop_separator rest hfirst]
      cases cs.drop word.length <;> simp [hc.name]

/-! # Declarations before a separator -/

theorem readTarget_separator {cs : List Char} {found : Pattern × Nat}
    (h : readTarget cs = .ok found) :
    found.2 ≤ cs.length ∧ readTarget (cs ++ c :: rest) = .ok found := by
  unfold readTarget at h
  split at h
  · cases h
  next d others =>
      split at h
      next hopener =>
          split at h
          · cases h
          next n hlength =>
              have hpair : closerOf? d = some (if d == '[' then ']' else '\x7d') := by
                simp only [Bool.or_eq_true, beq_iff_eq] at hopener
                rcases hopener with rfl | rfl <;> rfl
              rcases balancedLength_append hpair hlength (c :: rest) with ⟨hinside, hmore⟩
              rcases map_eq_ok_iff.mp h with ⟨pattern, hpattern, rfl⟩
              refine ⟨by simp only [List.length_cons]; omega, ?_⟩
              unfold readTarget
              rw [List.cons_append]
              dsimp only
              rw [if_pos hopener, hmore]
              dsimp only
              rw [List.take_append_of_le_length (Nat.le_of_lt hinside), hpattern]
              rfl
      next hopener =>
          dsimp only at h
          split at h
          · cases h
          next hname =>
              cases h
              have hinside := nameLength_le (d :: others)
              have hlength := nameLength_separator hc rest (d :: others)
              refine ⟨hinside, ?_⟩
              unfold readTarget
              rw [List.cons_append] at hlength ⊢
              dsimp only
              rw [if_neg hopener, hlength, if_neg hname, ← List.cons_append,
                List.take_append_of_le_length hinside]

theorem readAssignment_separator {cs : List Char} {found : String × Nat}
    (h : readAssignment cs = .ok found) : readAssignment (cs ++ c :: rest) = .ok found := by
  unfold readAssignment at h
  split at h
  · cases h
  next assignment hassignment =>
      rcases exists_of_assignmentLength? hassignment with ⟨gap, value, rfl, hgap, rfl, hsecond⟩
      dsimp only at h
      rw [(assignmentLength?_append hgap hsecond).2] at h
      split at h
      · cases h
      next n hlength =>
          rcases statementLength?_append hlength (c :: rest) with ⟨hinside, hmore⟩
          have hhead : (value ++ c :: rest).head? ≠ some '=' := by
            cases value with
            | nil => cases hlength
            | cons d others => exact hsecond
          rcases assignmentLength?_append hgap hhead with ⟨hfound, hdrop⟩
          rw [List.append_assoc, List.cons_append, readAssignment, hfound]
          dsimp only
          rw [hdrop, hmore]
          dsimp only
          rw [List.take_append_of_le_length (Nat.le_of_lt hinside),
            List.drop_append_of_le_length (Nat.succ_le_of_lt hinside), blankLength_separator hc]
          exact h

theorem readDeclaration_separator {cs : List Char} {start : Nat} {found : Directive × Nat}
    (h : readDeclaration cs start = .ok found) :
    readDeclaration (cs ++ c :: rest) start = .ok found := by
  rcases bind_eq_ok_iff.mp h with ⟨⟨pattern, target⟩, htarget, h⟩
  rcases bind_eq_ok_iff.mp h with ⟨⟨e, length⟩, hvalue, h⟩
  rcases readTarget_separator hc rest htarget with ⟨hinside, htargets⟩
  have hvalues := readAssignment_separator hc rest hvalue
  have hlength : start + target ≤ cs.length := by
    rw [List.length_drop] at hinside
    by_contra hpast
    rw [List.drop_eq_nil_of_le (by omega)] at htarget
    cases htarget
  rw [readDeclaration, List.drop_append_of_le_length (by omega), htargets, bind_ok]
  dsimp only
  rw [List.drop_append_of_le_length hlength, hvalues, bind_ok]
  exact h

/-! # Directives before a separator -/

namespace Directive

theorem headed_separator (cs : List Char) :
    (headed.findSome? fun kind =>
      (headerStart? kind.1 (cs ++ c :: rest)).map fun n => (kind, n)) =
        headed.findSome? fun kind => (headerStart? kind.1 cs).map fun n => (kind, n) := by
  simp (disch := decide) only [headed, List.findSome?_cons, List.findSome?_nil,
    headerStart?_separator hc rest]

theorem blankLength_var_separator {cs : List Char} (h : "var".toList.isPrefixOf cs = true) :
    blankLength ((cs ++ c :: rest).drop 3) = blankLength (cs.drop 3) := by
  rw [show 3 = "var".length from rfl, drop_separator rest h, blankLength_separator hc]

theorem isVar_separator (cs : List Char) :
    ("var".toList.isPrefixOf (cs ++ c :: rest) &&
      blankLength ((cs ++ c :: rest).drop 3) != 0) =
        ("var".toList.isPrefixOf cs && blankLength (cs.drop 3) != 0) := by
  rw [isPrefixOf_separator hc rest (by decide)]
  cases hfirst : "var".toList.isPrefixOf cs with
  | false => rfl
  | true => rw [blankLength_var_separator hc rest hfirst]

omit hc in
theorem pathLength_le (cs : List Char) : pathLength cs ≤ cs.length := by
  by_cases hpath : pathLength cs = 0
  · omega
  · rcases exists_of_pathLength hpath with ⟨w, after, rfl, hlength, -⟩
    rw [← hlength, List.length_append]
    exact Nat.le_add_right _ _

theorem read?_separator {cs : List Char} {directive : Directive} {n : Nat}
    (h : read? cs = some (.ok (directive, n))) :
    read? (cs ++ c :: rest) = some (.ok (directive, n)) := by
  have hhead : (cs ++ c :: rest).head? = cs.head? := by
    cases cs with
    | nil => cases h
    | cons d others => rfl
  unfold read? at h ⊢
  rw [hhead, headed_separator hc, isVar_separator hc, isWordFirst_separator hc rest (by decide),
    isWordFirst_separator hc rest (by decide), pathLength_separator hc]
  split at h
  next hbrace => rw [if_pos hbrace, readInterpolation_append (Option.some.inj h)]
  next hbrace =>
      rw [if_neg hbrace]
      split at h
      next => rw [readHeader_append (Option.some.inj h)]
      next =>
          split at h
          next hword =>
              rw [if_pos hword, blankLength_var_separator hc rest (Bool.and_eq_true_iff.mp hword).1,
                readDeclaration_separator hc rest (Option.some.inj h)]
          next hword =>
              rw [if_neg hword]
              dsimp only
              rw [List.take_append_of_le_length (pathLength_le cs)]
              exact h

theorem read?_separator_eq_none {cs : List Char} (h : read? cs = none) :
    read? (cs ++ c :: rest) = none := by
  rw [read?_eq_none_iff] at h ⊢
  cases cs with
  | nil =>
      intro d hd
      cases hd
      refine ⟨?_, hc.isNameStart⟩
      rintro rfl
      exact hc.other (by decide)
  | cons d others => exact h

end Directive

end Separator

end Stencil
