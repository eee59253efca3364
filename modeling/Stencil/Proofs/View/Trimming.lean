import Stencil.Proofs.View.Tiling

/-!
# Blank expressions

The expressions in the nodes of a view are trimmed: there is something in them, and no white space
around it. Nearly all of them: a loop that names its item and goes on with nothing but blanks after
its `in` keeps the last of the blanks as its collection. Every other directive with a blank
expression is a fault in the structure, wherever the scan of the text comes upon it.
-/

namespace Stencil

open Grammar

/-! # White space at the ends of a text -/

structure Text.IsTrimmed (cs : List Char) : Prop where
  filled : cs ≠ []
  first : ∀ c ∈ cs.head?, Text.isBlank c = false
  last : ∀ c ∈ cs.getLast?, Text.isBlank c = false

namespace Text

theorem isTrimmed_trimEnd {c : Char} {rest : List Char} (hc : isBlank c = false) :
    IsTrimmed (trimEnd (c :: rest)) := by
  have hfilled : trimEnd (c :: rest) ≠ [] := by
    intro hnil
    have hblank := List.rdropWhile_eq_nil_iff.mp hnil c List.mem_cons_self
    rw [hc] at hblank
    cases hblank
  refine ⟨hfilled, ?_, ?_⟩
  · intro d hd
    rcases View.trimEnd_prefix (c :: rest) with ⟨more, hmore⟩
    rcases List.head?_eq_some_iff.mp hd with ⟨others, hothers⟩
    rw [hothers] at hmore
    cases hmore
    exact hc
  · intro d hd
    rcases List.getLast?_eq_some_iff.mp hd with ⟨front, hfront⟩
    have hlast := List.rdropWhile_last_not isBlank (c :: rest) hfilled
    change ¬ isBlank ((trimEnd (c :: rest)).getLast hfilled) = true at hlast
    simpa [hfront] using hlast

theorem exists_of_trimStart {cs : List Char} (h : allBlank cs = false) :
    ∃ c rest, trimStart cs = c :: rest ∧ isBlank c = false := by
  cases hstart : trimStart cs with
  | nil =>
      have hblank : allBlank cs = true := List.all_eq_true.mpr (List.dropWhile_eq_nil_iff.mp hstart)
      rw [h] at hblank
      cases hblank
  | cons c rest =>
      have hhead := List.head?_dropWhile_not isBlank cs
      rw [← trimStart, hstart] at hhead
      exact ⟨c, rest, rfl, by simpa using hhead⟩

theorem isTrimmed_trim {cs : List Char} (h : allBlank cs = false) : IsTrimmed (trim cs) := by
  rcases exists_of_trimStart h with ⟨c, rest, hstart, hc⟩
  rw [trim, hstart]
  exact isTrimmed_trimEnd hc

theorem isTrimmed_trimmed {cs : List Char} (h : allBlank cs = false) :
    IsTrimmed (trimmed cs).toList := by
  rw [trimmed, String.toList_ofList]
  exact isTrimmed_trim h

end Text

/-! # Headers of loops -/

/-- A header ends with the word `in` and at least two blanks, the last of which is `c`. -/
def EndsInBlanks (header : List Char) (c : Char) : Prop :=
  ∃ blanks, 'i' :: 'n' :: (blanks ++ [c]) <:+ header ∧ blanks ≠ [] ∧
    Text.allBlank (blanks ++ [c]) = true

theorem EndsInBlanks.of_suffix {header rest : List Char} {c : Char} (h : EndsInBlanks rest c)
    (hsuffix : rest <:+ header) : EndsInBlanks header c := by
  rcases h with ⟨blanks, hends, hblanks⟩
  exact ⟨blanks, hends.trans hsuffix, hblanks⟩

theorem isTrimmed_of_collectionAfterIn? {cs found : List Char}
    (h : collectionAfterIn? cs = some found) :
    Text.IsTrimmed found ∨ ∃ c, found = [c] ∧ EndsInBlanks cs c := by
  unfold collectionAfterIn? at h
  split at h
  next after hafter =>
      rcases exists_of_blankLength after with ⟨blanks, rest, rfl, hlength, hblanks, hrest, hdrop⟩
      have hends : 'i' :: 'n' :: (blanks ++ rest) <:+ cs := by
        rw [← hafter]
        exact List.dropWhile_suffix _
      dsimp only at h
      rw [hdrop, ← hlength] at h
      split at h
      · cases h
      · cases rest with
        | cons c others =>
            cases h
            exact .inl (Text.isTrimmed_trimEnd (hrest c rfl))
        | nil =>
            dsimp only at h
            split at h
            · cases h
            next hnames hone =>
                rcases List.eq_nil_or_concat blanks with rfl | ⟨others, c, rfl⟩
                · simp at hnames
                · rw [List.concat_eq_append] at *
                  rw [List.append_nil] at h hends
                  simp only [List.length_append, List.length_cons, List.length_nil,
                    Nat.zero_add, Nat.add_sub_cancel, List.drop_left, Option.some.injEq] at h
                  refine .inr ⟨c, h.symm, others, hends, ?_, hblanks⟩
                  rintro rfl
                  simp at hone
  · cases h

theorem isTrimmed_of_eachNames? {header collection : List Char} {item index : String}
    (h : eachNames? header = some (item, index, collection)) :
    Text.IsTrimmed collection ∨ ∃ c, collection = [c] ∧ EndsInBlanks header c := by
  have hbehind {n : Nat} {rest : List Char}
      (hrest : rest <:+ (Text.trimStart header).drop n)
      (hfound : collectionAfterIn? rest = some collection) :
      Text.IsTrimmed collection ∨ ∃ c, collection = [c] ∧ EndsInBlanks header c := by
    have hheader : rest <:+ header :=
      hrest.trans ((List.drop_suffix _ _).trans (List.dropWhile_suffix _))
    rcases isTrimmed_of_collectionAfterIn? hfound with htrimmed | ⟨c, hc, hends⟩
    · exact .inl htrimmed
    · exact .inr ⟨c, hc, hends.of_suffix hheader⟩
  unfold eachNames? at h
  dsimp only at h
  split at h
  · cases h
  · split at h
    next found rest hindex =>
        rcases Option.map_eq_some_iff.mp h with ⟨found, hfound, heq⟩
        cases heq
        refine hbehind (n := nameLength (Text.trimStart header)) ?_ hfound
        unfold indexName? at hindex
        split at hindex
        next more hmore =>
            dsimp only at hindex
            split at hindex
            · cases hindex
            · cases hindex
              refine (List.drop_suffix _ _).trans ((List.dropWhile_suffix _).trans ?_)
              refine (List.suffix_cons ',' more).trans ?_
              rw [← hmore]
              exact List.dropWhile_suffix _
        · cases hindex
    next hindex =>
        rcases Option.map_eq_some_iff.mp h with ⟨found, hfound, heq⟩
        cases heq
        exact hbehind List.suffix_rfl hfound

theorem isTrimmed_of_readEach {header : List Char} {item index collection : String}
    (h : readEach header = .ok (.openEach item index collection)) :
    Text.IsTrimmed collection.toList ∨
      ∃ c, collection = String.singleton c ∧ EndsInBlanks header c := by
  unfold readEach at h
  split at h
  · cases h
  next hink =>
      split at h
      next found hnames =>
          cases h
          rw [String.toList_ofList]
          rcases isTrimmed_of_eachNames? hnames with htrimmed | ⟨c, rfl, hends⟩
          · exact .inl htrimmed
          · exact .inr ⟨c, rfl, hends⟩
      next =>
          cases h
          exact .inl (Text.isTrimmed_trimmed (by simpa using hink))

/-! # Other directives -/

theorem isTrimmed_of_readInterpolation {cs : List Char} {e : String} {n : Nat}
    (h : readInterpolation cs = .ok (.interpolation e, n)) : Text.IsTrimmed e.toList := by
  rcases bind_eq_ok_iff.mp h with ⟨length, -, h⟩
  dsimp only at h
  split at h
  · cases h
  next hink =>
      cases h
      exact Text.isTrimmed_trimmed (by simpa using hink)

theorem isTrimmed_of_readIf {header : List Char} {condition : String}
    (h : readIf header = .ok (.openIf condition)) : Text.IsTrimmed condition.toList := by
  unfold readIf at h
  split at h
  · cases h
  next hink =>
      cases h
      exact Text.isTrimmed_trimmed (by simpa using hink)

theorem isTrimmed_of_readElif {header : List Char} {condition : String}
    (h : readElif header = .ok (.elif condition)) (hfilled : condition.isEmpty = false) :
    Text.IsTrimmed condition.toList := by
  cases h
  apply Text.isTrimmed_trimmed
  cases hblank : Text.allBlank header with
  | false => rfl
  | true =>
      rw [trimmed, View.trim_of_allBlank hblank] at hfilled
      cases hfilled

theorem isTrimmed_of_readInclude {header : List Char} {path : Text} {e : String}
    (h : readInclude header = .ok (.inclusion path (some e))) : Text.IsTrimmed e.toList := by
  unfold readInclude at h
  split at h
  · cases h
  · dsimp only at h
    split at h
    · cases h
    · split at h
      · cases h
      · split at h
        · cases h
        next hink =>
            cases h
            exact Text.isTrimmed_trimmed (by simpa using hink)

theorem isTrimmed_of_readDeclaration {cs : List Char} {start n : Nat} {pattern : Pattern}
    {e : String} (h : readDeclaration cs start = .ok (.declaration pattern e, n)) :
    Text.IsTrimmed e.toList := by
  rcases bind_eq_ok_iff.mp h with ⟨target, -, h⟩
  rcases bind_eq_ok_iff.mp h with ⟨value, hvalue, h⟩
  cases h
  unfold readAssignment at hvalue
  split at hvalue
  · cases hvalue
  · dsimp only at hvalue
    split at hvalue
    · cases hvalue
    · split at hvalue
      · cases hvalue
      next hink =>
          cases hvalue
          exact Text.isTrimmed_trimmed (by simpa using hink)

/-! # Expressions of directives -/

theorem not_isBlank_of_dotted {w : List Char} (h : Dotted w) :
    ∀ c ∈ w, Text.isBlank c = false := by
  induction h with
  | name hw => exact fun c hc => isBlank_of_isNameChar (isNameChar_of_isName hw c hc)
  | member hw _ ih =>
      intro c hc
      rcases List.mem_append.mp hc with hc | hc
      · exact isBlank_of_isNameChar (isNameChar_of_isName hw c hc)
      · rcases List.mem_cons.mp hc with rfl | hc
        · decide
        · exact ih c hc

theorem isTrimmed_of_dotted {w : List Char} (h : Dotted w) : Text.IsTrimmed w where
  filled := by
    rcases h.exists_head with ⟨c, rest, rfl, -⟩
    exact List.cons_ne_nil c rest
  first c hc := not_isBlank_of_dotted h c (List.mem_of_head? hc)
  last c hc := not_isBlank_of_dotted h c (List.mem_of_getLast? hc)

/-- Whether the expression of a directive is trimmed, if it has one. Loops are left out. -/
def Directive.IsTrimmed : Directive → Prop
  | .interpolation e => Text.IsTrimmed e.toList
  | .shorthand path => Text.IsTrimmed path.toList
  | .declaration _ e => Text.IsTrimmed e.toList
  | .openIf condition => Text.IsTrimmed condition.toList
  | .elif condition => condition.isEmpty = false → Text.IsTrimmed condition.toList
  | .inclusion _ data => ∀ e ∈ data, Text.IsTrimmed e.toList
  | _ => True

theorem Directive.IsRead.isTrimmed {directive : Directive} (h : directive.IsRead) :
    directive.IsTrimmed := by
  rcases h.cases with ⟨cs, n, h⟩ | ⟨kind, hkind, header, h⟩ | ⟨cs, start, n, h⟩ | rfl | rfl |
    ⟨cs, hpath, rfl⟩
  · rcases readInterpolation_ok h with ⟨e, rfl⟩
    exact isTrimmed_of_readInterpolation h
  · simp only [headed, List.mem_cons, List.not_mem_nil, or_false] at hkind
    rcases hkind with rfl | rfl | rfl | rfl
    · rcases readIf_ok h with ⟨condition, rfl⟩
      exact isTrimmed_of_readIf h
    · cases h
      exact isTrimmed_of_readElif rfl
    · rcases readEach_ok h with ⟨item, index, collection, rfl⟩
      trivial
    · rcases readInclude_ok h with ⟨path, data, rfl⟩
      rintro e rfl
      exact isTrimmed_of_readInclude h
  · rcases bind_eq_ok_iff.mp h with ⟨target, -, hvalue⟩
    rcases bind_eq_ok_iff.mp hvalue with ⟨value, -, hfound⟩
    cases hfound
    exact isTrimmed_of_readDeclaration h
  · trivial
  · trivial
  · rcases exists_of_pathLength hpath with ⟨w, after, rfl, hlength, hdotted, -⟩
    rw [← hlength, List.take_left]
    change Text.IsTrimmed (String.ofList w).toList
    rw [String.toList_ofList]
    exact isTrimmed_of_dotted hdotted

theorem exists_of_readHeader {keyword : String} {cs : List Char} {start n : Nat}
    {meaning : List Char → Except StructureFault Directive} {directive : Directive}
    (h : readHeader keyword cs start meaning = .ok (directive, n)) :
    ∃ header, meaning header = .ok directive ∧ cs.take n = cs.take start ++ (header ++ [')']) := by
  rcases bind_eq_ok_iff.mp h with ⟨length, hlength, h⟩
  rcases bind_eq_ok_iff.mp h with ⟨found, hfound, h⟩
  cases h
  rcases enclosed_of_balancedLength hlength with ⟨header, after, hdrop, rfl, -⟩
  refine ⟨header, ?_, ?_⟩
  · rwa [hdrop, List.take_left] at hfound
  · rw [Nat.add_assoc, List.take_add, hdrop, List.take_length_add_append]
    rfl

theorem Directive.exists_header_of_read? {cs : List Char} {item index collection : String} {n : Nat}
    (h : read? cs = some (.ok (.openEach item index collection, n))) :
    ∃ front header, cs.take n = front ++ (header ++ [')']) ∧
      readEach header = .ok (.openEach item index collection) := by
  unfold Directive.read? at h
  split at h
  · rcases readInterpolation_ok (Option.some.inj h) with ⟨_, h⟩
    cases h
  · split at h
    next kind start hkind =>
        rcases List.exists_of_findSome?_eq_some hkind with ⟨given, hgiven, hstart⟩
        rcases Option.map_eq_some_iff.mp hstart with ⟨length, -, hpair⟩
        cases hpair
        rcases exists_of_readHeader (Option.some.inj h) with ⟨header, hmeaning, htake⟩
        simp only [headed, List.mem_cons, List.not_mem_nil, or_false] at hgiven
        rcases hgiven with rfl | rfl | rfl | rfl
        · rcases readIf_ok hmeaning with ⟨_, h⟩
          cases h
        · cases hmeaning
        · exact ⟨_, header, htake, hmeaning⟩
        · rcases readInclude_ok hmeaning with ⟨_, _, h⟩
          cases h
    next =>
        split at h
        · rcases bind_eq_ok_iff.mp (Option.some.inj h) with ⟨target, -, h⟩
          rcases bind_eq_ok_iff.mp h with ⟨value, -, h⟩
          cases h
        · split at h
          · cases h
          · split at h
            · cases h
            · dsimp only at h
              split at h <;> cases h

/-! # Expressions of nodes -/

/--
The header of a loop at an offset ends in blanks, and the last of them is what it keeps as its
collection.
-/
inductive Node.KeepsBlank (text : List Char) : Node → String → Prop where
  | intro {start inner line : Nat} {item index : String} {body : List Node}
      {front header : List Char} {c : Char} :
      Stands text start (.openEach item index (String.singleton c)) inner →
      slice text start inner = front ++ (header ++ [')']) → EndsInBlanks header c →
      KeepsBlank text (.loop line item index (String.singleton c) body) (String.singleton c)

theorem isTrimmed_of_loop {text : List Char} {start inner line : Nat}
    {item index collection : String} {body : List Node}
    (h : Stands text start (.openEach item index collection) inner) :
    Text.IsTrimmed collection.toList ∨
      Node.KeepsBlank text (.loop line item index collection body) collection := by
  rcases Directive.exists_header_of_read? h.read with ⟨front, header, htake, hread⟩
  rcases isTrimmed_of_readEach hread with htrimmed | ⟨c, rfl, hends⟩
  · exact .inl htrimmed
  · have hslice : slice text start inner = '@' :: front ++ (header ++ [')']) := by
      rw [slice_cons h.sign h.ahead, slice, htake]
      rfl
    exact .inr (.intro h hslice hends)

/-! # Blank directives -/

/-- A directive, the at sign not counted, that has white space alone where its expression goes. -/
inductive Directive.IsBlank : List Char → Prop where
  | interpolation {inner : List Char} :
      Text.allBlank inner = true → IsBlank ('\x7b' :: (inner ++ ['\x7d']))
  | header {keyword : String} {blanks inner : List Char} :
      keyword ∈ ["if", "elif", "each"] → Text.allBlank blanks = true →
      Text.allBlank inner = true → IsBlank (keyword.toList ++ (blanks ++ '(' :: (inner ++ [')'])))
  | data {blanks before body between inner : List Char} {mark : Char} :
      Text.allBlank blanks = true → Text.allBlank before = true → isQuote mark = true →
      QuotedBody mark body → Text.allBlank between = true → Text.allBlank inner = true →
      IsBlank ("include".toList ++ (blanks ++ '(' ::
        (before ++ (mark :: (body ++ [mark]) ++ (between ++ ',' :: inner)) ++ [')'])))
  | declaration {blanks target gap inner : List Char} :
      Text.allBlank blanks = true → blanks ≠ [] → IsTarget target → Text.allBlank gap = true →
      Text.allBlank inner = true →
      IsBlank ("var".toList ++ (blanks ++ (target ++ (gap ++ '=' :: (inner ++ [';'])))))

section Blank

variable {blanks inner after : List Char}

theorem passed_of_allBlank (h : Text.allBlank blanks = true) : Passed blanks :=
  passed_blanks (List.all_eq_true.mp h)

theorem blankLength_append (h : Text.allBlank blanks = true)
    (hafter : ∀ c ∈ after.head?, Text.isBlank c = false) :
    blankLength (blanks ++ after) = blanks.length := by
  rw [blankLength, List.takeWhile_append_of_pos (List.all_eq_true.mp h)]
  cases after with
  | nil => simp
  | cons c rest => simp [hafter c rfl]

theorem readInterpolation_blank (h : Text.allBlank inner = true) :
    readInterpolation ('\x7b' :: (inner ++ '\x7d' :: after)) = .error .emptyInterpolation := by
  have hlength := View.balancedLength_of_passed (passed_of_allBlank h) "@\x7b" (.inr rfl) after
  rw [readInterpolation, List.drop_succ_cons, List.drop_zero, hlength, bind_ok, List.take_left]
  dsimp only
  rw [if_pos h]
  rfl

theorem Directive.read?_header (kind : String × (List Char → Except StructureFault Directive))
    (hkind : kind ∈ headed) (h : Text.allBlank blanks = true) (hinner : Passed inner)
    (after : List Char) :
    read? (kind.1.toList ++ (blanks ++ '(' :: (inner ++ ')' :: after))) =
      some ((kind.2 inner).map fun found =>
        (found, kind.1.length + blanks.length + 1 + inner.length + 1)) := by
  have hstart := View.headerStart?_append kind.1 blanks h (inner ++ ')' :: after)
  have hbrace : ¬ ((kind.1.toList ++ (blanks ++ '(' :: (inner ++ ')' :: after))).head? ==
      some '\x7b') = true := by
    simp only [headed, List.mem_cons, List.not_mem_nil, or_false] at hkind
    rcases hkind with rfl | rfl | rfl | rfl <;> simp
  have hfirst : (headed.findSome? fun h =>
      (headerStart? h.1 (kind.1.toList ++ (blanks ++ '(' :: (inner ++ ')' :: after)))).map
        fun n => (h, n)) = some (kind, kind.1.length + blanks.length + 1) := by
    simp only [headed, List.mem_cons, List.not_mem_nil, or_false] at hkind
    rcases hkind with rfl | rfl | rfl | rfl <;>
      simp only [headed, List.findSome?_cons, hstart, Option.map_some] <;>
      simp [headerStart?, List.isPrefixOf]
  have hdrop : (kind.1.toList ++ (blanks ++ '(' :: (inner ++ ')' :: after))).drop
      (kind.1.length + blanks.length + 1) = inner ++ ')' :: after := by
    rw [← String.length_toList, ← List.drop_drop, ← List.drop_drop, List.drop_left, List.drop_left]
    rfl
  rw [read?, if_neg hbrace, hfirst]
  dsimp only
  rw [readHeader, hdrop, View.balancedLength_of_passed hinner _ (.inl rfl), bind_ok, List.take_left]
  cases kind.2 inner <;> rfl

theorem readInclude_blank {before body between : List Char} {mark : Char}
    (hbefore : Text.allBlank before = true) (hmark : isQuote mark = true)
    (hbody : QuotedBody mark body) (hbetween : Text.allBlank between = true)
    (h : Text.allBlank inner = true) :
    ∃ fault, readInclude (before ++ (mark :: (body ++ [mark]) ++ (between ++ ',' :: inner))) =
      .error fault := by
  have hslash := ne_slash_of_isQuote hmark
  have hinked := isBlank_of_isQuote hmark
  have hstart {blanks after : List Char} {c : Char} (hblanks : Text.allBlank blanks = true)
      (hc : Text.isBlank c = false) : Text.trimStart (blanks ++ c :: after) = c :: after := by
    rw [Text.trimStart, List.dropWhile_append_of_pos (List.all_eq_true.mp hblanks)]
    exact View.trimStart_append_of_inked hc after
  have hliteral : stringLength (mark :: (body ++ [mark]) ++ (between ++ ',' :: inner)) =
      (mark :: (body ++ [mark])).length := by
    have hlength := bodyLength?_of_quotedBody hbody hslash (between ++ ',' :: inner)
    unfold isQuote at hmark
    simp only [List.cons_append, List.append_assoc, List.nil_append, stringLength, hmark, if_true,
      hlength, List.length_cons, List.length_append, List.length_nil, Nat.zero_add]
  have hparts : includeParts?
      (before ++ (mark :: (body ++ [mark]) ++ (between ++ ',' :: inner))) =
        some (mark :: (body ++ [mark]), some inner) := by
    have htrim : Text.trimStart
        (before ++ (mark :: (body ++ [mark]) ++ (between ++ ',' :: inner))) =
          mark :: (body ++ [mark]) ++ (between ++ ',' :: inner) := hstart hbefore hinked
    rw [includeParts?, htrim, hliteral, List.drop_left, List.take_left,
      hstart hbetween (by decide)]
    simp
  rw [readInclude, hparts]
  dsimp only
  rw [if_pos h]
  split
  · exact ⟨_, rfl⟩
  · exact ⟨_, rfl⟩

theorem brackets_of_closerOf? {opener closer : Char} (h : closerOf? opener = some closer) :
    isQuote opener = false ∧ isQuote closer = false ∧ closerOf? closer = none ∧
      isCloser closer = true := by
  unfold closerOf? at h
  split at h <;> cases h <;> decide

section Closer

variable {opener closer : Char} (h : closerOf? opener = some closer) (directive : String)

include h

theorem balancedLength_outermost (rest : List Char) :
    balancedLength directive closer [] 0 (closer :: rest) = .ok 0 := by
  rcases brackets_of_closerOf? h with ⟨-, hquote, hnone, hcloser⟩
  simp [balancedLength, hquote, hnone, hcloser]

theorem balancedLength_innermost (next : Char) (others rest : List Char) :
    balancedLength directive closer (next :: others) 0 (closer :: rest) =
      (balancedLength directive next others 0 rest).map (· + 1) := by
  rcases brackets_of_closerOf? h with ⟨-, hquote, hnone, hcloser⟩
  simp [balancedLength, hquote, hnone, hcloser]

end Closer

theorem Enclosed.balancedLength_append {w : List Char} (h : Enclosed w) (directive : String)
    (top : Char) (below rest : List Char) :
    balancedLength directive top below 0 (w ++ rest) =
      (balancedLength directive top below 0 rest).map (· + w.length) := by
  induction h generalizing top below rest with
  | nil => exact Passed.nil.balanced directive top below rest
  | @plain c w hc _ ih =>
      simp only [isFraming, Bool.or_eq_false_iff, Option.isSome_eq_false_iff,
        Option.isNone_iff_eq_none] at hc
      simp [balancedLength, hc, ih, except_map_map]
  | @literal mark body w hmark hbody _ ih =>
      have hquoted := (passed_quoted hmark hbody).balanced directive top below (w ++ rest)
      have hsame : mark :: (body ++ mark :: w) ++ rest =
          mark :: (body ++ [mark]) ++ (w ++ rest) := by
        simp
      have hlength : (mark :: (body ++ mark :: w)).length =
          w.length + (mark :: (body ++ [mark])).length := by
        simp only [List.length_cons, List.length_append, List.length_nil]
        omega
      rw [hsame, hquoted, ih, except_map_map, hlength]
  | @wrapped opener closer inner w hpair _ _ ihInner ihRest =>
      rcases brackets_of_closerOf? hpair with ⟨hopener, -, -, -⟩
      have hlength : (opener :: (inner ++ closer :: w)).length =
          w.length + 1 + inner.length + 1 := by
        simp only [List.length_cons, List.length_append]
        omega
      rw [hlength, List.cons_append, List.append_assoc, List.cons_append, balancedLength.eq_def]
      dsimp only
      rw [hopener, if_neg Bool.false_ne_true, hpair]
      dsimp only
      rw [ihInner, balancedLength_innermost hpair, ihRest, except_map_map, except_map_map,
        except_map_map, ← Nat.add_assoc, ← Nat.add_assoc]

theorem IsTarget.readTarget_cases {target : List Char} (h : IsTarget target) {c : Char}
    (hc : isNameChar c = false) (after : List Char) :
    (∃ fault, readTarget (target ++ c :: after) = .error fault) ∨
      ∃ pattern, readTarget (target ++ c :: after) = .ok (pattern, target.length) := by
  cases h with
  | name hname => exact .inr ⟨_, View.readTarget_name hname hc after⟩
  | @pattern opener closer inner hopener hpair hinner =>
      have hcloser : (if opener == '[' then ']' else '\x7d') = closer := by
        rcases hopener with rfl | rfl <;> exact Option.some.inj hpair
      have hlength : balancedLength "@var" closer [] 0 (inner ++ closer :: c :: after) =
          .ok inner.length := by
        rw [hinner.balancedLength_append, balancedLength_outermost hpair]
        simp [Except.map]
      have hpattern : (opener == '\x7b' || opener == '[') = true := by simpa using hopener
      unfold readTarget
      rw [List.cons_append, List.append_assoc, List.singleton_append]
      dsimp only
      rw [if_pos hpattern, hcloser, hlength]
      dsimp only
      rw [List.take_left]
      cases readPattern opener inner with
      | error fault => exact .inl ⟨fault, rfl⟩
      | ok pattern => exact .inr ⟨pattern, by simp [Except.map]⟩

theorem assignmentLength?_append {gap : List Char} (hgap : Text.allBlank gap = true)
    (hsecond : after.head? ≠ some '=') :
    assignmentLength? (gap ++ '=' :: after) = some (gap.length + 1) ∧
      (gap ++ '=' :: after).drop (gap.length + 1) = after := by
  have hblanks : blankLength (gap ++ '=' :: after) = gap.length :=
    blankLength_append hgap (by simp [show Text.isBlank '=' = false from by decide])
  constructor
  · simp [assignmentLength?, hblanks, hsecond]
  · rw [← List.drop_drop, List.drop_left]
    rfl

theorem readAssignment_blank {gap : List Char} (hgap : Text.allBlank gap = true)
    (h : Text.allBlank inner = true) :
    readAssignment (gap ++ '=' :: (inner ++ ';' :: after)) = .error .noValue := by
  have hsecond : (inner ++ ';' :: after).head? ≠ some '=' := by
    cases inner with
    | nil => simp
    | cons c rest =>
        intro hhead
        simp only [List.cons_append, List.head?_cons, Option.some.injEq] at hhead
        subst hhead
        exact absurd (List.all_eq_true.mp h _ List.mem_cons_self) (by decide)
  rcases assignmentLength?_append hgap hsecond with ⟨hassignment, hdrop⟩
  rw [readAssignment, hassignment]
  dsimp only
  rw [hdrop, View.statementLength?_of_passed (passed_of_allBlank h)]
  dsimp only
  rw [List.take_left, if_pos h]

theorem IsTarget.exists_cons {target : List Char} (h : IsTarget target) :
    ∃ c rest, target = c :: rest ∧ Text.isBlank c = false := by
  cases h with
  | name hname =>
      rcases exists_of_isName hname with ⟨c, rest, rfl, hc, -⟩
      exact ⟨c, rest, rfl, isBlank_of_isNameChar (isNameChar_of_isNameStart hc)⟩
  | pattern hopener =>
      refine ⟨_, _, rfl, ?_⟩
      rcases hopener with rfl | rfl <;> decide

namespace Directive

theorem read?_var {cs : List Char} (hblanks : Text.allBlank blanks = true) (hsome : blanks ≠ [])
    (hcs : ∀ c ∈ cs.head?, Text.isBlank c = false) :
    read? ("var".toList ++ (blanks ++ cs)) =
        some (readDeclaration ("var".toList ++ (blanks ++ cs)) (3 + blanks.length)) ∧
      ("var".toList ++ (blanks ++ cs)).drop (3 + blanks.length) = cs := by
  have hlength := blankLength_append hblanks hcs
  have hpos : ¬ blanks.length = 0 := by simpa using hsome
  constructor
  · simp [read?, headed, headerStart?, List.isPrefixOf, hlength, hpos]
  · rw [← List.drop_drop]
    exact List.drop_left

theorem read?_declaration_blank {target gap : List Char} (hblanks : Text.allBlank blanks = true)
    (hsome : blanks ≠ []) (htarget : IsTarget target) (hgap : Text.allBlank gap = true)
    (h : Text.allBlank inner = true) :
    ∃ fault, read? ("var".toList ++
      (blanks ++ (target ++ (gap ++ '=' :: (inner ++ ';' :: after))))) = some (.error fault) := by
  have hhead : ∀ c ∈ (target ++ (gap ++ '=' :: (inner ++ ';' :: after))).head?,
      Text.isBlank c = false := by
    rcases htarget.exists_cons with ⟨c, rest, rfl, hc⟩
    simp [hc]
  rcases read?_var hblanks hsome hhead with ⟨hread, hdrop⟩
  have hbehind : ∃ c rest, gap ++ '=' :: (inner ++ ';' :: after) = c :: rest ∧
      isNameChar c = false := by
    cases gap with
    | nil => exact ⟨'=', _, rfl, by decide⟩
    | cons c rest =>
        refine ⟨c, _, rfl, ?_⟩
        cases hc : isNameChar c with
        | false => rfl
        | true =>
            have hblank := List.all_eq_true.mp hgap c List.mem_cons_self
            rw [isBlank_of_isNameChar hc] at hblank
            cases hblank
  rcases hbehind with ⟨c, rest, hrest, hc⟩
  have htargets := htarget.readTarget_cases hc rest
  rw [← hrest] at htargets
  rw [hread, readDeclaration, hdrop]
  rcases htargets with ⟨fault, hfault⟩ | ⟨pattern, hpattern⟩
  · rw [hfault]
    exact ⟨fault, rfl⟩
  · rw [hpattern, bind_ok]
    dsimp only
    rw [← List.drop_drop, hdrop, List.drop_left, readAssignment_blank hgap h]
    exact ⟨.noValue, rfl⟩

theorem read?_of_isBlank {w : List Char} (h : IsBlank w) :
    (∃ fault, read? (w ++ after) = some (.error fault)) ∨
      ∃ n, read? (w ++ after) = some (.ok (.elif "", n)) := by
  cases h with
  | interpolation hinner =>
      refine .inl ⟨.emptyInterpolation, ?_⟩
      rw [List.cons_append, List.append_assoc, List.singleton_append, read?, if_pos (by simp),
        readInterpolation_blank hinner]
  | @header keyword blanks inner hkeyword hblanks hinner =>
      have hpassed := passed_of_allBlank hinner
      simp only [List.mem_cons, List.not_mem_nil, or_false] at hkeyword
      simp only [List.append_assoc, List.cons_append, List.nil_append]
      rcases hkeyword with rfl | rfl | rfl
      · refine .inl ⟨.noCondition "@if", ?_⟩
        rw [read?_header ("if", readIf) (by simp [headed]) hblanks hpassed]
        simp [readIf, hinner, Except.map]
      · refine .inr ⟨"elif".length + blanks.length + 1 + inner.length + 1, ?_⟩
        rw [read?_header ("elif", readElif) (by simp [headed]) hblanks hpassed]
        simp [readElif, trimmed, View.trim_of_allBlank hinner, Except.map]
      · refine .inl ⟨.noCollection, ?_⟩
        rw [read?_header ("each", readEach) (by simp [headed]) hblanks hpassed]
        simp [readEach, hinner, Except.map]
  | @data blanks before body between inner mark hblanks hbefore hmark hbody hbetween hinner =>
      rcases readInclude_blank hbefore hmark hbody hbetween hinner with ⟨fault, hfault⟩
      have hpassed : Passed (before ++ (mark :: (body ++ [mark]) ++ (between ++ ',' :: inner))) :=
        (passed_of_allBlank hbefore).append ((passed_quoted hmark hbody).append
          ((passed_of_allBlank hbetween).append
            ((passed_markless (w := [',']) (by decide)).append (passed_of_allBlank hinner))))
      refine .inl ⟨fault, ?_⟩
      simp only [List.append_assoc, List.cons_append, List.nil_append] at hfault hpassed ⊢
      have hread := read?_header ("include", readInclude) (by simp [headed]) hblanks hpassed after
      simp only [hfault] at hread
      simpa [Except.map] using hread
  | declaration hblanks hsome htarget hgap hinner =>
      simp only [List.append_assoc, List.cons_append, List.nil_append]
      exact .inl (read?_declaration_blank hblanks hsome htarget hgap hinner)

end Directive

end Blank

/-! # Where the scan comes -/

/-- A scan at an offset comes to another, past literal characters and well-formed directives. -/
inductive Reaches (text : List Char) : Nat → Nat → Prop where
  | here {i : Nat} : Reaches text i i
  | literal {i j : Nat} :
      i < text.length → ¬ Begins text i → Reaches text (i + 1) j → Reaches text i j
  | directive {i k j : Nat} {meaning : Directive} :
      Stands text i meaning k → Reaches text k j → Reaches text i j

inductive IsAmong (text : List Char) (i : Nat) (pieces : List Piece) : Prop where
  | directive {meaning : Directive} {stop : Nat} :
      Stands text i meaning stop →
      .directive (lineAt text i) (slice text i stop) meaning ∈ pieces → IsAmong text i pieces
  | fault {fault : StructureFault} :
      Stumbles text i fault → .fault (lineAt text i) fault ∈ pieces → IsAmong text i pieces

section Scan

variable {text : List Char} {start i : Nat} {pieces : List Piece}

theorem IsAmong.cons (piece : Piece) (h : IsAmong text i pieces) :
    IsAmong text i (piece :: pieces) := by
  cases h with
  | directive hstands hmem => exact .directive hstands (List.mem_cons_of_mem piece hmem)
  | fault hstumbles hmem => exact .fault hstumbles (List.mem_cons_of_mem piece hmem)

theorem IsAmong.of_text {line : Nat} {source : List Char}
    (h : IsAmong text i (.text line source :: pieces)) : IsAmong text i pieces := by
  cases h with
  | directive hstands hmem => exact .directive hstands (by simpa using hmem)
  | fault hstumbles hmem => exact .fault hstumbles (by simpa using hmem)

theorem Laid.isAmong (hlaid : Laid text start pieces) (hreach : Reaches text start i)
    (hbegins : Begins text i) : IsAmong text i pieces := by
  induction hreach generalizing pieces with
  | here =>
      cases hlaid with
      | done hend => exact absurd (lt_length_of_sign hbegins.sign) (by omega)
      | text hahead _ hliteral => exact absurd hliteral (hbegins.not_isLiteral hahead)
      | directive hstands => exact .directive hstands List.mem_cons_self
      | fault hstumbles => exact .fault hstumbles List.mem_cons_self
  | @literal k j hinside hnone _ ih =>
      cases hlaid with
      | done hend => omega
      | @text k stop rest hahead hstop hliteral hhead hrest =>
          -- What is left of the run is a run again, unless its last character is passed.
          rcases Nat.eq_or_lt_of_le (Nat.succ_le_of_lt hahead) with rfl | hfurther
          · exact (ih hrest hbegins).cons _
          · have hleft : IsLiteral text (k + 1) stop :=
              fun m hm hlast => hliteral m (Nat.le_of_lt hm) hlast
            exact (ih (.text hfurther hstop hleft hhead hrest) hbegins).of_text.cons _
      | directive hstands => exact absurd hstands.begins hnone
      | fault hstumbles => exact absurd hstumbles.begins hnone
  | directive hstands _ ih =>
      cases hlaid with
      | done hend => exact absurd (lt_length_of_sign hstands.sign) (by omega)
      | text hahead _ hliteral => exact absurd hliteral (hstands.begins.not_isLiteral hahead)
      | directive hother hrest =>
          rcases hstands.agrees hother with ⟨rfl, rfl⟩
          exact (ih hrest hbegins).cons _
      | fault hstumbles => cases hstands.read.symm.trans hstumbles.read

end Scan

namespace View

theorem not_parse_of_isBlank {text : String} {nodes : List Node} {i : Nat} {w after : List Char}
    (hreach : Reaches text.toList 0 i) (hdrop : text.toList.drop i = '@' :: (w ++ after))
    (hblank : Directive.IsBlank w) : parse text ≠ .ok nodes := by
  intro hparse
  have hwell := isWellFormed_of_parse hparse
  have hread : (∃ fault, Directive.read? (text.toList.drop (i + 1)) = some (.error fault)) ∨
      ∃ n, Directive.read? (text.toList.drop (i + 1)) = some (.ok (.elif "", n)) := by
    rw [drop_succ_of_drop hdrop]
    exact Directive.read?_of_isBlank hblank
  have hbegins : Begins text.toList i := by
    refine ⟨getElem?_of_drop hdrop, ?_⟩
    rcases hread with ⟨fault, hfault⟩ | ⟨n, helif⟩
    · simp [hfault]
    · simp [helif]
  cases (Laid.ofText text.toList).isAmong hreach hbegins with
  | fault hstumbles hmem =>
      rcases hwell _ hmem with ⟨event, hevent, -⟩
      cases hevent
  | directive hstands hmem =>
      rcases hwell _ hmem with ⟨event, hevent, hcomplete⟩
      cases hevent
      rcases hread with ⟨fault, hfault⟩ | ⟨n, helif⟩
      · cases hfault.symm.trans hstands.read
      · cases helif.symm.trans hstands.read
        cases hcomplete

theorem isTrimmed_of_mem_ownReferences {text : String} {nodes : List Node} {node : Node}
    {e : String} (h : parse text = .ok nodes) (hnode : node ∈ Node.walkAll nodes)
    (he : e ∈ node.ownReferences) :
    Text.IsTrimmed e.toList ∨ node.KeepsBlank text.toList e := by
  have hread : node.IsRead := allRead_of_parse h node hnode
  cases node with
  | text line s => cases he
  | interpolation line found =>
      cases List.mem_singleton.mp he
      exact .inl (Directive.IsRead.isTrimmed hread)
  | shorthand line path =>
      cases List.mem_singleton.mp he
      exact .inl (Directive.IsRead.isTrimmed hread)
  | declaration line pattern found =>
      cases List.mem_singleton.mp he
      exact .inl (Directive.IsRead.isTrimmed hread)
  | conditional line branches otherwise =>
      rcases List.mem_map.mp he with ⟨branch, hbranch, rfl⟩
      rcases hread branch hbranch with hopen | ⟨helif, hfilled⟩
      · exact .inl (Directive.IsRead.isTrimmed hopen)
      · exact .inl (Directive.IsRead.isTrimmed helif hfilled)
  | loop line item index collection body =>
      cases List.mem_singleton.mp he
      rcases (tiles_of_parse h).inside hnode with ⟨start, stop, hcovers⟩
      cases hcovers with
      | loop hopen => exact isTrimmed_of_loop hopen
  | inclusion line path data =>
      cases data with
      | none => cases he
      | some found =>
          cases List.mem_singleton.mp he
          exact .inl (Directive.IsRead.isTrimmed hread e rfl)

/--
The expressions in the nodes of a view are trimmed, but for the collection of a loop whose header
ends in blanks behind its `in`: that is the last of them. Where the scan of a text comes upon any
other directive with a blank expression, the text has a fault in its structure.
-/
theorem expressions_trimmed (text : String) :
    (∀ nodes, parse text = .ok nodes → ∀ node ∈ Node.walkAll nodes, ∀ e ∈ node.ownReferences,
      Text.IsTrimmed e.toList ∨ node.KeepsBlank text.toList e) ∧
      ∀ i w after, Reaches text.toList 0 i → text.toList.drop i = '@' :: (w ++ after) →
        Directive.IsBlank w → ∃ e, parse text = .error e ∧
          ∀ view, (structureError e view).code = "PARSE_STRUCTURE" := by
  refine ⟨fun nodes h node hnode e => isTrimmed_of_mem_ownReferences h hnode, ?_⟩
  intro i w after hreach hdrop hblank
  cases hparse : parse text with
  | ok nodes => exact absurd hparse (not_parse_of_isBlank hreach hdrop hblank)
  | error e => exact ⟨e, rfl, fun view => rfl⟩

theorem expressions_trimmed_arms :
    (parse "@if ( x )a@elif (y)@{ z }@end").map Node.references = .ok ["x", "y", "z"] ∧
      (∀ nodes, parse "@if ( x )a@elif (y)@{ z }@end" = .ok nodes →
        ∀ node ∈ Node.walkAll nodes, ∀ e ∈ node.ownReferences, Text.IsTrimmed e.toList ∨
          node.KeepsBlank "@if ( x )a@elif (y)@{ z }@end".toList e) ∧
      ∃ e, parse "a@if ( )b@end" = .error e ∧
        ∀ view, (structureError e view).code = "PARSE_STRUCTURE" := by
  have hreach : Reaches "a@if ( )b@end".toList 0 1 :=
    .literal (by decide) (fun hbegins => absurd hbegins.sign (by decide)) .here
  have hblank : Directive.IsBlank ("if".toList ++ ([' '] ++ '(' :: ([' '] ++ [')']))) :=
    .header (by simp) (by decide) (by decide)
  exact ⟨by decide +kernel, (expressions_trimmed _).1,
    (expressions_trimmed _).2 1 _ "b@end".toList hreach (by decide) hblank⟩

/-- A loop without a collection passes for one over a blank. -/
theorem collection_not_trimmed :
    (parse "@each (x in  )a@end").map Node.references = .ok [" "] ∧
      ¬ Text.IsTrimmed " ".toList ∧
      complaints "@each (  )a@end" = ["line 1: @each requires a collection"] := by
  refine ⟨by decide +kernel, ?_, by decide +kernel⟩
  intro htrimmed
  exact absurd (htrimmed.first ' ' rfl) (by decide)

end View
end Stencil
