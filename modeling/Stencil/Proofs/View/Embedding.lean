import Mathlib
import Stencil.Proofs.View.LoopHeader
import Stencil.View.Block

/-!
# Expressions in every directive

A text that is an expression may stand in each directive that takes one. The
directive then ends where the expression does, and its node holds the expression,
the white space around it left out.
-/

namespace Stencil
namespace View

open Grammar

/-! # White space -/

theorem trimStart_append_of_inked {c : Char} (h : Text.isBlank c = false) (rest : List Char) :
    Text.trimStart (c :: rest) = c :: rest := by
  simp [Text.trimStart, h]

theorem trimStart_blank (cs : List Char) : Text.trimStart (' ' :: cs) = Text.trimStart cs := by
  simp [Text.trimStart, show Text.isBlank ' ' = true from by decide]

theorem trim_blank (cs : List Char) : Text.trim (' ' :: cs) = Text.trim cs := by
  rw [Text.trim, trimStart_blank, Text.trim]

theorem drop_blankLength (cs : List Char) : cs.drop (blankLength cs) = Text.trimStart cs := by
  induction cs with
  | nil => rfl
  | cons c rest ih =>
      cases hc : Text.isBlank c with
      | false => simp [blankLength, Text.trimStart, hc]
      | true => simpa [blankLength, Text.trimStart, hc] using ih

theorem allBlank_append (cs ds : List Char) :
    Text.allBlank (cs ++ ds) = (Text.allBlank cs && Text.allBlank ds) :=
  List.all_append

theorem trim_of_allBlank {cs : List Char} (h : Text.allBlank cs = true) : Text.trim cs = [] := by
  have hstart : Text.trimStart cs = [] :=
    List.dropWhile_eq_nil_iff.mpr (List.all_eq_true.mp h)
  rw [Text.trim, hstart]
  rfl

theorem allBlank_of_compile {source : String} {tree : Expr}
    (h : Expr.compile source = .ok tree) :
    Text.allBlank source.toList = false := by
  cases hblank : Text.allBlank source.toList with
  | false => rfl
  | true =>
      rw [Expr.compile, Text.strip, trim_of_allBlank hblank] at h
      cases h

theorem trimEnd_prefix (cs : List Char) : Text.trimEnd cs <+: cs :=
  List.rdropWhile_prefix Text.isBlank cs

theorem trimEnd_trimEnd (cs : List Char) :
    Text.trimEnd (Text.trimEnd cs) = Text.trimEnd cs :=
  List.rdropWhile_idempotent Text.isBlank cs

theorem trim_trim (cs : List Char) : Text.trim (Text.trim cs) = Text.trim cs := by
  have hstart : Text.trimStart (Text.trim cs) = Text.trim cs := by
    cases htrim : Text.trim cs with
    | nil => rfl
    | cons c rest =>
        rcases trimEnd_prefix (Text.trimStart cs) with ⟨more, hmore⟩
        rw [← Text.trim, htrim] at hmore
        have hhead := List.head?_dropWhile_not Text.isBlank cs
        rw [← Text.trimStart, ← hmore] at hhead
        exact trimStart_append_of_inked (by simpa using hhead) rest
  rw [Text.trim, hstart, Text.trim, trimEnd_trimEnd]

theorem compile_strip (source : String) :
    Expr.compile (Text.strip source) = Expr.compile source := by
  rw [Expr.compile, Expr.compile, Text.strip, Text.strip, String.toList_ofList, trim_trim]

/-! # Names -/

theorem trimStart_name {name : List Char} (hname : isName name = true) (rest : List Char) :
    Text.trimStart (name ++ rest) = name ++ rest := by
  rcases exists_of_isName hname with ⟨c, others, rfl, hc, -⟩
  exact trimStart_append_of_inked (isBlank_of_isNameChar (isNameChar_of_isNameStart hc)) _

theorem blankLength_name {name : List Char} (hname : isName name = true) (rest : List Char) :
    blankLength (' ' :: (name ++ rest)) = 1 := by
  rcases exists_of_isName hname with ⟨c, others, rfl, hc, -⟩
  have hinked := isBlank_of_isNameChar (isNameChar_of_isNameStart hc)
  simp [blankLength, show Text.isBlank ' ' = true from by decide, hinked]

theorem length_ne_zero_of_isName {name : List Char} (hname : isName name = true) :
    name.length ≠ 0 := by
  rcases exists_of_isName hname with ⟨c, others, rfl, -⟩
  exact Nat.succ_ne_zero others.length

theorem nameLength_cons {name : List Char} (hname : isName name = true) {c : Char}
    (hc : isNameChar c = false) (rest : List Char) :
    nameLength (name ++ c :: rest) = name.length := by
  apply nameLength_append hname
  intro d hd
  cases hd
  exact hc

/-! # Where directives end -/

theorem balancedLength_of_passed {w : List Char} (h : Passed w) (directive : String)
    {closer : Char} (hcloser : closer = ')' ∨ closer = '\x7d') (rest : List Char) :
    balancedLength directive closer [] 0 (w ++ closer :: rest) = .ok w.length := by
  have hclosing : balancedLength directive closer [] 0 (closer :: rest) = .ok 0 := by
    rcases hcloser with rfl | rfl <;> simp [balancedLength, isQuote, closerOf?, isCloser]
  rw [h.balanced, hclosing]
  simp [Except.map]

theorem statementLength?_of_passed {w : List Char} (h : Passed w) (rest : List Char) :
    statementLength? 0 0 (w ++ ';' :: rest) = some w.length := by
  have hclosing : statementLength? 0 0 (';' :: rest) = some 0 := by
    simp [statementLength?, isQuote, closerOf?, isCloser]
  rw [h.statement, hclosing]
  simp

theorem readHeader_of_passed {header : List Char} (h : Passed header) {directive : Directive}
    {meaning : List Char → Except StructureFault Directive}
    (hmeaning : meaning header = .ok directive) (keyword : String) (start rest : List Char) :
    readHeader keyword (start ++ (header ++ ')' :: rest)) start.length meaning =
      .ok (directive, start.length + header.length + 1) := by
  rw [readHeader, List.drop_left, balancedLength_of_passed h _ (.inl rfl), bind_ok,
    List.take_left, hmeaning, bind_ok]
  rfl

/-! # Each directive -/

theorem readEach_of_names {header : List Char} {e item index : String}
    (hnames : eachNames? (header ++ ' ' :: 'i' :: 'n' :: ' ' :: e.toList) =
      some (item, index, Text.trim e.toList)) :
    readEach (header ++ ' ' :: 'i' :: 'n' :: ' ' :: e.toList) =
      .ok (.openEach item index (Text.strip e)) := by
  have hinked : Text.allBlank (header ++ ' ' :: 'i' :: 'n' :: ' ' :: e.toList) = false := by
    rw [allBlank_append, show Text.allBlank (' ' :: 'i' :: 'n' :: ' ' :: e.toList) = false from by
      simp [Text.allBlank, show Text.isBlank 'i' = false from by decide], Bool.and_false]
  rw [readEach, hinked, hnames]
  rfl

theorem readTarget_name {name : List Char} (hname : isName name = true) {c : Char}
    (hc : isNameChar c = false) (rest : List Char) :
    readTarget (name ++ c :: rest) = .ok (.name (String.ofList name), name.length) := by
  have hlength := nameLength_cons hname hc rest
  have hpos := length_ne_zero_of_isName hname
  have htake : (name ++ c :: rest).take name.length = name := List.take_left
  rcases exists_of_isName hname with ⟨first, others, rfl, hfirst, -⟩
  have hopener : (first == '\x7b' || first == '[') = false := by
    cases hopener : first == '\x7b' || first == '[' with
    | false => rfl
    | true =>
        simp only [Bool.or_eq_true, beq_iff_eq] at hopener
        rcases hopener with rfl | rfl <;> exact absurd hfirst (by decide)
  rw [List.cons_append] at hlength htake ⊢
  simp only [readTarget, hopener, Bool.false_eq_true, if_false, hlength, beq_iff_eq, hpos, htake]

theorem stringLength_append {literal : List Char} (h : stringLength literal = literal.length)
    (hpos : literal ≠ []) (rest : List Char) :
    stringLength (literal ++ rest) = literal.length ∧ Passed literal ∧
      ∃ mark others, literal = mark :: others ∧ isQuote mark = true := by
  cases literal with
  | nil => exact absurd rfl hpos
  | cons c others =>
      have hlength : stringLength (c :: others) ≠ 0 := by
        rw [h]
        exact Nat.succ_ne_zero others.length
      have hkind := spellsKind_string hlength
      rw [h, List.take_length] at hkind
      rcases hkind with ⟨mark, body, hmark, hbody, heq⟩
      have hslash := ne_slash_of_isQuote hmark
      rw [heq]
      refine ⟨?_, passed_quoted hmark hbody, mark, body ++ [mark], rfl, hmark⟩
      have hlength := bodyLength?_of_quotedBody hbody hslash rest
      rw [List.cons_append, List.append_assoc, List.singleton_append, stringLength, ← isQuote,
        if_pos hmark, hlength]
      simp

section Directives

variable {e : String} {tree : Expr} (h : Expr.compile e = .ok tree)

include h

theorem read?_interpolation (rest : List Char) :
    Directive.read? ('\x7b' :: (e.toList ++ '\x7d' :: rest)) =
      some (.ok (.interpolation (Text.strip e), e.toList.length + 2)) := by
  have hlength := balancedLength_of_passed (passed_of_compile h) "@\x7b" (.inr rfl) rest
  simp only [Directive.read?, List.head?_cons, beq_self_eq_true, if_true, readInterpolation,
    List.drop_succ_cons, List.drop_zero]
  rw [hlength, bind_ok, List.take_left, allBlank_of_compile h]
  rfl

theorem readIf_eq : readIf e.toList = .ok (.openIf (Text.strip e)) := by
  rw [readIf, allBlank_of_compile h]
  rfl

theorem readEach_bare :
    readEach e.toList = .ok (.openEach defaultItem defaultIndex (Text.strip e)) := by
  rw [readEach, allBlank_of_compile h, eachNames?_of_compile h]
  rfl

theorem collectionAfterIn?_eq :
    collectionAfterIn? (' ' :: 'i' :: 'n' :: ' ' :: e.toList) = some (Text.trim e.toList) := by
  have hblank : Text.isBlank ' ' = true := by decide
  have hinked : Text.isBlank 'i' = false := by decide
  have hafter : (' ' :: e.toList).drop (blankLength (' ' :: e.toList)) =
      Text.trimStart e.toList := by
    rw [drop_blankLength, trimStart_blank]
  have hsome : Text.trimStart e.toList ≠ [] := by
    intro hnil
    have hall := List.all_eq_true.mpr (List.dropWhile_eq_nil_iff.mp hnil)
    rw [← Text.allBlank, allBlank_of_compile h] at hall
    cases hall
  have hbefore : (blankLength (' ' :: 'i' :: 'n' :: ' ' :: e.toList) == 0) = false := by
    simp [blankLength, hblank]
  have hbetween : (blankLength (' ' :: e.toList) == 0) = false := by
    simp [blankLength, hblank]
  rw [collectionAfterIn?, trimStart_blank, trimStart_append_of_inked hinked]
  split
  · rename_i after heq
    cases heq
    dsimp only
    rw [hbefore, hbetween, hafter, Text.trim]
    cases hfound : Text.trimStart e.toList with
    | nil => exact absurd hfound hsome
    | cons c rest => rfl
  · rename_i hother
    exact absurd rfl (hother _)

theorem eachNames?_item {x : List Char} (hx : isName x = true) :
    eachNames? (x ++ ' ' :: 'i' :: 'n' :: ' ' :: e.toList) =
      some (String.ofList x, defaultIndex, Text.trim e.toList) := by
  have hindex : indexName? (' ' :: 'i' :: 'n' :: ' ' :: e.toList) = none := by
    rw [indexName?, trimStart_blank, trimStart_append_of_inked (by decide)]
    split
    · rename_i heq
      cases heq
    · rfl
  rw [eachNames?, trimStart_name hx, nameLength_cons hx (by decide)]
  simp only [beq_iff_eq, length_ne_zero_of_isName hx, if_false, List.drop_left, List.take_left,
    hindex, collectionAfterIn?_eq h, Option.map_some]

theorem eachNames?_item_index {x i : List Char} (hx : isName x = true) (hi : isName i = true) :
    eachNames? (x ++ ',' :: ' ' :: (i ++ ' ' :: 'i' :: 'n' :: ' ' :: e.toList)) =
      some (String.ofList x, String.ofList i, Text.trim e.toList) := by
  have hindex : indexName? (',' :: ' ' :: (i ++ ' ' :: 'i' :: 'n' :: ' ' :: e.toList)) =
      some (String.ofList i, ' ' :: 'i' :: 'n' :: ' ' :: e.toList) := by
    rw [indexName?, trimStart_append_of_inked (by decide)]
    split
    · rename_i more heq
      cases heq
      rw [trimStart_blank, trimStart_name hi]
      dsimp only
      rw [nameLength_cons hi (by decide)]
      simp only [beq_iff_eq, length_ne_zero_of_isName hi, if_false, List.drop_left,
        List.take_left]
    · rename_i hother
      exact absurd rfl (hother _)
  rw [eachNames?, trimStart_name hx, nameLength_cons hx (by decide)]
  simp only [beq_iff_eq, length_ne_zero_of_isName hx, if_false, List.drop_left, List.take_left,
    hindex, collectionAfterIn?_eq h, Option.map_some]

theorem readAssignment_eq (rest : List Char) :
    readAssignment (' ' :: '=' :: ' ' :: (e.toList ++ ';' :: rest)) =
      .ok (Text.strip e, e.toList.length + 4 + blankLength rest) := by
  have hassignment :
      assignmentLength? (' ' :: '=' :: ' ' :: (e.toList ++ ';' :: rest)) = some 2 := by
    simp [assignmentLength?, blankLength, show Text.isBlank ' ' = true from by decide,
      show Text.isBlank '=' = false from by decide]
  have hfirst : Passed [' '] := passed_markless (by decide)
  have hpassed : Passed (' ' :: e.toList) := hfirst.append (passed_of_compile h)
  have hlength := statementLength?_of_passed hpassed rest
  rw [List.cons_append] at hlength
  have hinked : Text.allBlank (' ' :: e.toList) = false := by
    rw [show ' ' :: e.toList = [' '] ++ e.toList from rfl, allBlank_append,
      allBlank_of_compile h, Bool.and_false]
  rw [readAssignment, hassignment]
  simp only [List.drop_succ_cons, List.drop_zero, hlength]
  have hdrop : (e.toList ++ ';' :: rest).drop (' ' :: e.toList).length = rest := by
    rw [List.length_cons, ← List.drop_drop, List.drop_left]
    rfl
  rw [hdrop, ← List.cons_append, List.take_left, hinked, trimmed, trim_blank, List.length_cons,
    show 2 + (e.toList.length + 1) + 1 = e.toList.length + 4 from by omega]
  rfl

theorem readDeclaration_name {x : List Char} (hx : isName x = true) (start : List Char) :
    readDeclaration (start ++ (x ++ ' ' :: '=' :: ' ' :: (e.toList ++ [';']))) start.length =
      .ok (.declaration (.name (String.ofList x)) (Text.strip e),
        start.length + x.length + (e.toList.length + 4)) := by
  rw [readDeclaration, List.drop_left, readTarget_name hx (by decide), bind_ok]
  dsimp only
  rw [← List.drop_drop, List.drop_left, List.drop_left, readAssignment_eq h, bind_ok]
  rfl

theorem read?_declaration {x : List Char} (hx : isName x = true) :
    Directive.read? ('v' :: 'a' :: 'r' :: ' ' :: (x ++ ' ' :: '=' :: ' ' :: (e.toList ++ [';']))) =
      some (.ok (.declaration (.name (String.ofList x)) (Text.strip e),
        4 + x.length + (e.toList.length + 4))) := by
  have hread := readDeclaration_name h hx ['v', 'a', 'r', ' ']
  have hblank := blankLength_name hx (' ' :: '=' :: ' ' :: (e.toList ++ [';']))
  simp only [List.cons_append, List.nil_append, List.length_cons, List.length_nil,
    Nat.zero_add, Nat.reduceAdd] at hread
  simp [Directive.read?, headed, headerStart?, List.isPrefixOf, hblank, hread]

theorem readInclude_eq {literal : List Char} (hliteral : stringLength literal = literal.length)
    (hpath : (unquote (String.ofList literal)).saysNothing = false) :
    readInclude (literal ++ ',' :: ' ' :: e.toList) =
      .ok (.inclusion (unquote (String.ofList literal)) (some (Text.strip e))) := by
  have hpos : literal ≠ [] := by
    rintro rfl
    cases hpath
  rcases stringLength_append hliteral hpos (',' :: ' ' :: e.toList) with
    ⟨hlength, _, mark, others, rfl, hmark⟩
  have hinked := isBlank_of_isQuote hmark
  have hstart := trimStart_append_of_inked hinked (others ++ ',' :: ' ' :: e.toList)
  have hparts : includeParts? ((mark :: others) ++ ',' :: ' ' :: e.toList) =
      some (mark :: others, some (' ' :: e.toList)) := by
    rw [List.cons_append] at hlength
    rw [includeParts?, List.cons_append, hstart, hlength, ← List.cons_append, List.drop_left,
      List.take_left, trimStart_append_of_inked (by decide)]
    simp
  have hblank : Text.allBlank (' ' :: e.toList) = false := by
    rw [show ' ' :: e.toList = [' '] ++ e.toList from rfl, allBlank_append,
      allBlank_of_compile h, Bool.and_false]
  rw [readInclude, hparts]
  dsimp only
  rw [hpath, hblank, trimmed, trim_blank]
  rfl

end Directives

/-! # Whole views -/

theorem piecesFrom_skip (line : Nat) (w rest : List Char) :
    Piece.piecesFrom line w.length (w ++ rest) =
      Piece.piecesFrom (w.foldl Piece.nextLine line) 0 rest := by
  induction w generalizing line with
  | nil => rfl
  | cons c others ih =>
      rw [List.length_cons, List.cons_append, Piece.piecesFrom, ih, List.foldl_cons]

theorem piecesFrom_directive {w rest : List Char} {meaning : Directive} {n : Nat}
    (h : Directive.read? (w ++ rest) = some (.ok (meaning, n))) (hn : n = w.length)
    (line : Nat) :
    Piece.piecesFrom line 0 ('@' :: (w ++ rest)) =
      .directive line ('@' :: w) meaning ::
        Piece.piecesFrom (w.foldl Piece.nextLine line) 0 rest := by
  subst hn
  rw [Piece.piecesFrom, if_pos (by decide), h]
  dsimp only
  rw [List.take_left, piecesFrom_skip]

theorem piecesFrom_end (line : Nat) :
    Piece.piecesFrom line 0 ['@', 'e', 'n', 'd'] =
      [.directive line ['@', 'e', 'n', 'd'] .close] := by
  have hread : Directive.read? (['e', 'n', 'd'] ++ []) = some (.ok (.close, 3)) := rfl
  exact piecesFrom_directive hread rfl line

theorem parse_of_pieces {text : String} {pieces : List Piece} {b : Builder}
    (hpieces : Piece.ofText text.toList = pieces)
    (hb : pieces.foldlM Builder.addPiece Builder.empty = .ok b) :
    parse text = b.result := by
  rw [parse, hpieces, hb, bind_ok]

theorem foldlM_cons_ok {b next : Builder} {piece : Piece} (h : b.addPiece piece = .ok next)
    (rest : List Piece) :
    (piece :: rest).foldlM Builder.addPiece b = rest.foldlM Builder.addPiece next := by
  rw [List.foldlM_cons, h, bind_ok]

theorem parse_directive {text : String} {w : List Char} {meaning : Directive} {n : Nat}
    {node : Node} (htext : text.toList = '@' :: w)
    (h : Directive.read? w = some (.ok (meaning, n))) (hn : n = w.length)
    (hnode : Builder.empty.addDirective 1 meaning = .ok ⟨[], [node]⟩) :
    parse text = .ok [node] := by
  have hread : Directive.read? (w ++ []) = some (.ok (meaning, n)) := by rwa [List.append_nil]
  have hpieces := piecesFrom_directive hread hn 1
  rw [List.append_nil, ← htext, Piece.piecesFrom] at hpieces
  have hadd : Builder.empty.addPiece (.directive 1 ('@' :: w) meaning) = .ok ⟨[], [node]⟩ := by
    rw [Builder.addPiece, hnode]
  exact parse_of_pieces hpieces (foldlM_cons_ok hadd [])

theorem parse_block {text : String} {w : List Char} {meaning : Directive} {n : Nat}
    {block : OpenBlock} {node : Node} (htext : text.toList = '@' :: (w ++ ['@', 'e', 'n', 'd']))
    (h : Directive.read? (w ++ ['@', 'e', 'n', 'd']) = some (.ok (meaning, n)))
    (hn : n = w.length)
    (hblock : Builder.empty.addDirective 1 meaning = .ok ⟨[block], []⟩)
    (hnode : block.finish [] = [node]) :
    parse text = .ok [node] := by
  have hpieces := piecesFrom_directive h hn 1
  rw [← htext, piecesFrom_end] at hpieces
  have hopen : Builder.empty.addPiece (.directive 1 ('@' :: w) meaning) = .ok ⟨[block], []⟩ := by
    rw [Builder.addPiece, hblock]
  have hclose : ∀ line s,
      Builder.addPiece ⟨[block], []⟩ (.directive line s .close) = .ok ⟨[], [node]⟩ := by
    intro line s
    rw [← hnode]
    rfl
  rw [parse_of_pieces (b := ⟨[], [node]⟩) hpieces]
  · rfl
  · rw [foldlM_cons_ok hopen, foldlM_cons_ok (hclose _ _)]
    rfl

/-! # Keywords -/

theorem headerStart?_append (keyword : String) (blanks : List Char)
    (hblanks : Text.allBlank blanks = true) (rest : List Char) :
    headerStart? keyword (keyword.toList ++ (blanks ++ '(' :: rest)) =
      some (keyword.length + blanks.length + 1) := by
  have hprefix : keyword.toList.isPrefixOf (keyword.toList ++ (blanks ++ '(' :: rest)) = true := by
    rw [List.isPrefixOf_iff_prefix]
    exact List.prefix_append _ _
  have hlength : blankLength (blanks ++ '(' :: rest) = blanks.length := by
    rw [blankLength, List.takeWhile_append_of_pos (List.all_eq_true.mp hblanks)]
    simp [show Text.isBlank '(' = false from by decide]
  rw [headerStart?, if_pos hprefix, ← String.length_toList]
  dsimp only
  rw [List.drop_left, hlength, ← List.drop_drop, List.drop_left, List.drop_left]
  rfl

theorem read?_if (rest : List Char) :
    Directive.read? (['i', 'f', ' ', '('] ++ rest) =
      some (readHeader "if" (['i', 'f', ' ', '('] ++ rest) 4 readIf) := by
  have hstart : headerStart? "if" (['i', 'f', ' ', '('] ++ rest) = some 4 :=
    headerStart?_append "if" [' '] (by decide) rest
  rw [Directive.read?, headed, List.findSome?_cons, hstart]
  rfl

theorem read?_each (rest : List Char) :
    Directive.read? (['e', 'a', 'c', 'h', ' ', '('] ++ rest) =
      some (readHeader "each" (['e', 'a', 'c', 'h', ' ', '('] ++ rest) 6 readEach) := by
  have hif : headerStart? "if" (['e', 'a', 'c', 'h', ' ', '('] ++ rest) = none := rfl
  have helif : headerStart? "elif" (['e', 'a', 'c', 'h', ' ', '('] ++ rest) = none := rfl
  have hstart : headerStart? "each" (['e', 'a', 'c', 'h', ' ', '('] ++ rest) = some 6 :=
    headerStart?_append "each" [' '] (by decide) rest
  rw [Directive.read?, headed, List.findSome?_cons, hif, Option.map_none, List.findSome?_cons,
    helif, Option.map_none, List.findSome?_cons, hstart]
  rfl

theorem read?_include (rest : List Char) :
    Directive.read? (['i', 'n', 'c', 'l', 'u', 'd', 'e', '('] ++ rest) =
      some (readHeader "include" (['i', 'n', 'c', 'l', 'u', 'd', 'e', '('] ++ rest) 8
        readInclude) := by
  have hif : headerStart? "if" (['i', 'n', 'c', 'l', 'u', 'd', 'e', '('] ++ rest) = none := rfl
  have helif : headerStart? "elif" (['i', 'n', 'c', 'l', 'u', 'd', 'e', '('] ++ rest) = none := rfl
  have heach : headerStart? "each" (['i', 'n', 'c', 'l', 'u', 'd', 'e', '('] ++ rest) = none := rfl
  have hstart :
      headerStart? "include" (['i', 'n', 'c', 'l', 'u', 'd', 'e', '('] ++ rest) = some 8 :=
    headerStart?_append "include" [] (by decide) rest
  rw [Directive.read?, headed, List.findSome?_cons, hif, Option.map_none, List.findSome?_cons,
    helif, Option.map_none, List.findSome?_cons, heach, Option.map_none, List.findSome?_cons,
    hstart]
  rfl

/-! # The nodes -/

theorem parse_each {header item index collection : String} (hpassed : Passed header.toList)
    (hread : readEach header.toList = .ok (.openEach item index collection)) :
    parse ("@each (" ++ header ++ ")@end") = .ok [.loop 1 item index collection []] := by
  have hheader := readHeader_of_passed hpassed hread "each" ['e', 'a', 'c', 'h', ' ', '(']
    ['@', 'e', 'n', 'd']
  have hdirective : Directive.read?
      ((['e', 'a', 'c', 'h', ' ', '('] ++ (header.toList ++ [')'])) ++ ['@', 'e', 'n', 'd']) =
        some (.ok (.openEach item index collection, 6 + header.toList.length + 1)) := by
    rw [List.append_assoc, List.append_assoc, read?_each]
    exact congrArg some hheader
  refine parse_block ?_ hdirective ?_ rfl rfl
  · simp
  · simp
    omega

section Nodes

variable {e : String} {tree : Expr} (h : Expr.compile e = .ok tree)

include h

theorem parse_interpolation :
    parse ("@\x7b" ++ e ++ "\x7d") = .ok [.interpolation 1 (Text.strip e)] := by
  refine parse_directive ?_ (read?_interpolation h []) ?_ rfl
  · simp
  · simp

theorem parse_if :
    parse ("@if (" ++ e ++ ")@end") =
      .ok [.conditional 1 [⟨Text.strip e, 1, []⟩] none] := by
  have hheader := readHeader_of_passed (passed_of_compile h) (readIf_eq h) "if"
    ['i', 'f', ' ', '('] ['@', 'e', 'n', 'd']
  have hdirective : Directive.read?
      ((['i', 'f', ' ', '('] ++ (e.toList ++ [')'])) ++ ['@', 'e', 'n', 'd']) =
        some (.ok (.openIf (Text.strip e), 4 + e.toList.length + 1)) := by
    rw [List.append_assoc, List.append_assoc, read?_if]
    exact congrArg some hheader
  refine parse_block ?_ hdirective ?_ rfl rfl
  · simp
  · simp
    omega

theorem parse_declaration {x : String} (hx : isName x.toList = true) :
    parse ("@var " ++ x ++ " = " ++ e ++ ";") =
      .ok [.declaration 1 (.name x) (Text.strip e)] := by
  refine parse_directive ?_ (read?_declaration h hx) ?_ ?_
  · simp
  · simp
    omega
  · simp [Builder.addDirective, Builder.push, Builder.empty]

theorem parse_include {literal : String}
    (hliteral : stringLength literal.toList = literal.toList.length)
    (hpath : (unquote literal).saysNothing = false) :
    parse ("@include(" ++ literal ++ ", " ++ e ++ ")") =
      .ok [.inclusion 1 (unquote literal) (some (Text.strip e))] := by
  have hpos : literal.toList ≠ [] := by
    intro hnil
    rw [unquote, hnil] at hpath
    cases hpath
  rcases stringLength_append hliteral hpos [] with ⟨_, hpassed, _⟩
  have hheader : Passed (literal.toList ++ ',' :: ' ' :: e.toList) :=
    hpassed.append ((passed_markless (w := [',', ' ']) (by decide)).append (passed_of_compile h))
  have hread := readInclude_eq h hliteral (by rwa [String.ofList_toList])
  rw [String.ofList_toList] at hread
  have hdirective := (read?_include _).trans (congrArg some (readHeader_of_passed hheader hread
    "include" ['i', 'n', 'c', 'l', 'u', 'd', 'e', '('] []))
  refine parse_directive ?_ hdirective ?_ rfl
  · simp
  · simp
    omega

theorem parse_each_item {x : String} (hx : isName x.toList = true) :
    parse ("@each (" ++ x ++ " in " ++ e ++ ")@end") =
      .ok [.loop 1 x "index" (Text.strip e) []] := by
  have hheader : (x ++ " in " ++ e).toList = x.toList ++ ' ' :: 'i' :: 'n' :: ' ' :: e.toList := by
    simp
  have hpassed : Passed (x.toList ++ ' ' :: 'i' :: 'n' :: ' ' :: e.toList) :=
    (passed_name hx).append
      ((passed_markless (w := [' ', 'i', 'n', ' ']) (by decide)).append (passed_of_compile h))
  have hread := readEach_of_names (eachNames?_item h hx)
  rw [String.ofList_toList] at hread
  rw [← hheader] at hpassed hread
  simpa only [String.append_assoc, defaultIndex] using parse_each hpassed hread

theorem parse_each_item_index {x i : String} (hx : isName x.toList = true)
    (hi : isName i.toList = true) :
    parse ("@each (" ++ x ++ ", " ++ i ++ " in " ++ e ++ ")@end") =
      .ok [.loop 1 x i (Text.strip e) []] := by
  have hheader : (x ++ ", " ++ i ++ " in " ++ e).toList =
      (x.toList ++ ',' :: ' ' :: i.toList) ++ ' ' :: 'i' :: 'n' :: ' ' :: e.toList := by
    simp
  have hnamed : Passed (x.toList ++ ',' :: ' ' :: i.toList) :=
    (passed_name hx).append
      ((passed_markless (w := [',', ' ']) (by decide)).append (passed_name hi))
  have hpassed : Passed
      ((x.toList ++ ',' :: ' ' :: i.toList) ++ ' ' :: 'i' :: 'n' :: ' ' :: e.toList) :=
    hnamed.append
      ((passed_markless (w := [' ', 'i', 'n', ' ']) (by decide)).append (passed_of_compile h))
  have hnames := eachNames?_item_index h hx hi
  have hsplit : x.toList ++ ',' :: ' ' :: (i.toList ++ ' ' :: 'i' :: 'n' :: ' ' :: e.toList) =
      (x.toList ++ ',' :: ' ' :: i.toList) ++ ' ' :: 'i' :: 'n' :: ' ' :: e.toList := by
    simp
  rw [hsplit] at hnames
  have hread := readEach_of_names hnames
  rw [String.ofList_toList, String.ofList_toList] at hread
  rw [← hheader] at hpassed hread
  simpa only [String.append_assoc] using parse_each hpassed hread

end Nodes

/-- Every expression reaches its node unchanged, from each directive that takes one. -/
theorem parse_of_compile {e : String} {tree : Expr} (h : Expr.compile e = .ok tree) :
    Expr.compile (Text.strip e) = .ok tree ∧
    parse ("@\x7b" ++ e ++ "\x7d") = .ok [.interpolation 1 (Text.strip e)] ∧
    parse ("@if (" ++ e ++ ")@end") =
      .ok [.conditional 1 [⟨Text.strip e, 1, []⟩] none] ∧
    (∀ x, isName x.toList = true →
      parse ("@var " ++ x ++ " = " ++ e ++ ";") =
        .ok [.declaration 1 (.name x) (Text.strip e)]) ∧
    parse ("@each (" ++ e ++ ")@end") = .ok [.loop 1 "item" "index" (Text.strip e) []] ∧
    (∀ x, isName x.toList = true →
      parse ("@each (" ++ x ++ " in " ++ e ++ ")@end") =
        .ok [.loop 1 x "index" (Text.strip e) []]) ∧
    (∀ x i, isName x.toList = true → isName i.toList = true →
      parse ("@each (" ++ x ++ ", " ++ i ++ " in " ++ e ++ ")@end") =
        .ok [.loop 1 x i (Text.strip e) []]) ∧
    (∀ literal, stringLength literal.toList = literal.toList.length →
      (unquote literal).saysNothing = false →
      parse ("@include(" ++ literal ++ ", " ++ e ++ ")") =
        .ok [.inclusion 1 (unquote literal) (some (Text.strip e))]) := by
  refine ⟨?_, parse_interpolation h, parse_if h, ?_, ?_, ?_, ?_, ?_⟩
  · rw [compile_strip]
    exact h
  · intro x hx
    exact parse_declaration h hx
  · exact parse_each (passed_of_compile h) (readEach_bare h)
  · intro x hx
    exact parse_each_item h hx
  · intro x i hx hi
    exact parse_each_item_index h hx hi
  · intro literal hliteral hpath
    exact parse_include h hliteral hpath

theorem parse_of_compile_quoted :
    Expr.compile " f(';@\x7b', \") in \\\"\")[0] " = .ok
      (.member (.call (.name "f") [.literal (.str ";@\x7b"), .literal (.str ") in \"")])
        (.literal (.int 0))) ∧
    parse ("@each (" ++ "x" ++ ", " ++ "i" ++ " in " ++ " f(';@\x7b', \") in \\\"\")[0] " ++
        ")@end") =
      .ok [.loop 1 "x" "i" (Text.strip " f(';@\x7b', \") in \\\"\")[0] ") []] ∧
    parse ("@include(" ++ "\"p\"" ++ ", " ++ " f(';@\x7b', \") in \\\"\")[0] " ++ ")") =
      .ok [.inclusion 1 (unquote "\"p\"")
        (some (Text.strip " f(';@\x7b', \") in \\\"\")[0] "))] := by
  have hcompiled :
      Expr.compile " f(';@\x7b', \") in \\\"\")[0] " = .ok
        (.member (.call (.name "f") [.literal (.str ";@\x7b"), .literal (.str ") in \"")])
          (.literal (.int 0))) := by
    cbv
  rcases parse_of_compile hcompiled with ⟨_, _, _, _, _, _, heach, hinclude⟩
  exact ⟨hcompiled, heach "x" "i" (by decide) (by decide),
    hinclude "\"p\"" (by decide) (by decide)⟩

end View
end Stencil
