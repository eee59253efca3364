import Stencil.Proofs.View.Embedding
import Stencil.Proofs.View.Enclosure
import Stencil.Proofs.View.Pattern

/-!
# How far directives go

An at sign begins a directive if an opening brace or a name stands behind it. The directive then
goes on through the bracket that closes its header, to the end of a name or a word, or through the
semicolon of a declaration and the blanks behind that. What the reader takes for a directive has
one of these shapes, and it is as long as the text behind it allows.
-/

namespace Stencil

open Grammar

/-! # Names with points between them -/

inductive Dotted : List Char → Prop where
  | name {w : List Char} : isName w = true → Dotted w
  | member {w rest : List Char} : isName w = true → Dotted rest → Dotted (w ++ '.' :: rest)

theorem Dotted.exists_head {w : List Char} (h : Dotted w) :
    ∃ c rest, w = c :: rest ∧ isNameStart c = true := by
  cases h with
  | name hw =>
      rcases exists_of_isName hw with ⟨c, rest, rfl, hc, -⟩
      exact ⟨c, rest, rfl, hc⟩
  | member hw =>
      rcases exists_of_isName hw with ⟨c, rest, rfl, hc, -⟩
      exact ⟨c, _, List.cons_append, hc⟩

structure EndsPath (after : List Char) : Prop where
  name : ∀ c ∈ after.head?, isNameChar c = false
  member : ∀ c more, after = '.' :: c :: more → isNameStart c = false

theorem isName_concat {w : List Char} (h : isName w = true) {c : Char}
    (hc : isNameChar c = true) : isName (w ++ [c]) = true := by
  rcases exists_of_isName h with ⟨d, rest, rfl, hd, hrest⟩
  simpa [isName, hd, hc] using hrest

/-- What a dotted name goes on with, whether or not some of its last part has been read. -/
structure PathTail (cs w after : List Char) : Prop where
  split : cs = w ++ after
  ends : EndsPath after
  behind : ∀ v, isName v = true → Dotted (v ++ w)
  whole : ∀ c ∈ cs.head?, isNameStart c = true → Dotted w

namespace PathTail

theorem nothing {cs : List Char} (h : EndsPath cs) : PathTail cs [] cs where
  split := rfl
  ends := h
  behind v hv := by
    rw [List.append_nil]
    exact .name hv
  whole c hc hstart := by
    have hchar := h.name c hc
    rw [isNameChar_of_isNameStart hstart] at hchar
    cases hchar

variable {cs w after : List Char}

theorem char {c : Char} (hc : isNameChar c = true) (h : PathTail cs w after) :
    PathTail (c :: cs) (c :: w) after where
  split := by rw [h.split, List.cons_append]
  ends := h.ends
  behind v hv := by
    have hbehind := h.behind (v ++ [c]) (isName_concat hv hc)
    rwa [List.append_assoc] at hbehind
  whole d hd hstart := by
    cases hd
    have hname : isName [c] = true := by simp [isName, hstart]
    exact h.behind [c] hname

theorem point {c : Char} (hc : isNameStart c = true) (h : PathTail (c :: cs) w after) :
    PathTail ('.' :: c :: cs) ('.' :: w) after where
  split := by rw [h.split, List.cons_append]
  ends := h.ends
  behind v hv := .member hv (h.whole c rfl hc)
  whole d hd hstart := by
    cases hd
    cases hstart

end PathTail

theorem exists_of_pathTailLength (cs : List Char) :
    ∃ w after, PathTail cs w after ∧ w.length = pathTailLength cs := by
  induction cs using pathTailLength.induct with
  | case1 => exact ⟨[], [], .nothing ⟨by simp, by simp⟩, rfl⟩
  | case2 c rest hc ih =>
      rcases ih with ⟨w, after, htail, hlength⟩
      refine ⟨c :: w, after, htail.char hc, ?_⟩
      rw [pathTailLength.eq_def]
      simp [hc, hlength, Nat.add_comm]
  | case3 c hc hpoint next more hnext ih =>
      rcases ih with ⟨w, after, htail, hlength⟩
      cases beq_iff_eq.mp hpoint
      refine ⟨'.' :: w, after, htail.point hnext, ?_⟩
      rw [pathTailLength.eq_def]
      simp [hc, hnext, hlength, Nat.add_comm]
  | case4 c hc hpoint next more hnext =>
      refine ⟨[], _, .nothing ⟨by simpa using hc, ?_⟩, ?_⟩
      · intro d others heq
        cases heq
        simpa using hnext
      · rw [pathTailLength.eq_def]
        simp [hc, hnext]
  | case5 c hc hpoint =>
      refine ⟨[], _, .nothing ⟨by simpa using hc, by simp⟩, ?_⟩
      rw [pathTailLength.eq_def]
      simp [hc]
  | case6 c rest hc hpoint =>
      refine ⟨[], _, .nothing ⟨by simpa using hc, ?_⟩, ?_⟩
      · intro d others heq
        cases heq
        exact absurd rfl hpoint
      · rw [pathTailLength.eq_def]
        simp [hc, hpoint]

theorem exists_of_pathLength {cs : List Char} (h : pathLength cs ≠ 0) :
    ∃ w after, cs = w ++ after ∧ w.length = pathLength cs ∧ Dotted w ∧ EndsPath after := by
  cases cs with
  | nil => exact absurd rfl h
  | cons c rest =>
      by_cases hc : isNameStart c = true
      · rcases exists_of_pathTailLength rest with ⟨w, after, htail, hlength⟩
        have hwhole := htail.char (isNameChar_of_isNameStart hc)
        refine ⟨c :: w, after, hwhole.split, ?_, hwhole.whole c rfl hc, hwhole.ends⟩
        rw [pathLength, if_pos hc, List.length_cons, hlength, Nat.add_comm]
      · rw [pathLength, if_neg hc] at h
        exact absurd rfl h

/-! # Shapes of directives -/

inductive IsTarget : List Char → Prop where
  | name {w : List Char} : isName w = true → IsTarget w
  | pattern {opener closer : Char} {inner : List Char} :
      opener = '\x7b' ∨ opener = '[' → closerOf? opener = some closer → Enclosed inner →
      IsTarget (opener :: (inner ++ [closer]))

def headerWords : List String := ["if", "elif", "each", "include"]

def bareWords : List String := ["else", "end"]

inductive BeginsKeyword : List Char → Prop where
  | header {keyword : String} {blanks rest : List Char} :
      keyword ∈ headerWords → Text.allBlank blanks = true →
      BeginsKeyword (keyword.toList ++ (blanks ++ '(' :: rest))
  | declaration {c : Char} {rest : List Char} :
      Text.isBlank c = true → BeginsKeyword ("var".toList ++ c :: rest)
  | word {word : String} {rest : List Char} :
      word ∈ bareWords → (∀ c ∈ rest.head?, isNameChar c = false) →
      BeginsKeyword (word.toList ++ rest)

inductive Directive.Occurs : List Char → List Char → Prop where
  | interpolation {inner after : List Char} :
      Enclosed inner → Text.allBlank inner = false →
      Occurs ('\x7b' :: (inner ++ ['\x7d'])) after
  | header {keyword : String} {blanks inner after : List Char} :
      keyword ∈ headerWords → Text.allBlank blanks = true → Enclosed inner →
      Occurs (keyword.toList ++ (blanks ++ '(' :: (inner ++ [')']))) after
  | word {word : String} {after : List Char} :
      word ∈ bareWords → (∀ c ∈ after.head?, isNameChar c = false) → Occurs word.toList after
  | shorthand {path after : List Char} :
      Dotted path → EndsPath after → ¬ BeginsKeyword (path ++ after) → Occurs path after
  /-- The blanks behind the semicolon belong to the declaration, all of them. -/
  | declaration {blanks target gap value trail after : List Char} {final : Int} :
      Text.allBlank blanks = true → blanks ≠ [] → IsTarget target → Text.allBlank gap = true →
      value.head? ≠ some '=' → Unended 0 value final → final ≤ 0 →
      Text.allBlank value = false → Text.allBlank trail = true →
      (∀ c ∈ after.head?, Text.isBlank c = false) →
      Occurs ("var".toList ++ (blanks ++ (target ++ (gap ++ '=' :: (value ++ ';' :: trail))))) after

/-! # What is read has such a shape -/

theorem exists_of_blankLength (cs : List Char) :
    ∃ blanks rest, cs = blanks ++ rest ∧ blanks.length = blankLength cs ∧
      Text.allBlank blanks = true ∧ (∀ c ∈ rest.head?, Text.isBlank c = false) ∧
        cs.drop (blankLength cs) = rest := by
  refine ⟨cs.takeWhile Text.isBlank, Text.trimStart cs, ?_, rfl, ?_, ?_,
    View.drop_blankLength cs⟩
  · exact List.takeWhile_append_dropWhile.symm
  · exact List.all_eq_true.mpr fun c hc => List.mem_takeWhile_imp hc
  · intro c hc
    have hhead := List.head?_dropWhile_not Text.isBlank cs
    rw [← Text.trimStart, hc] at hhead
    simpa using hhead

theorem exists_of_headerStart? {keyword : String} {cs : List Char} {n : Nat}
    (h : headerStart? keyword cs = some n) :
    ∃ blanks rest, cs = keyword.toList ++ (blanks ++ '(' :: rest) ∧
      Text.allBlank blanks = true ∧ n = keyword.length + blanks.length + 1 ∧
        cs.drop n = rest := by
  unfold headerStart? at h
  split at h
  next hfirst =>
      rcases List.isPrefixOf_iff_prefix.mp hfirst with ⟨tail, rfl⟩
      have hdrop : (keyword.toList ++ tail).drop keyword.length = tail := by
        rw [← String.length_toList, List.drop_left]
      rcases exists_of_blankLength tail with ⟨blanks, rest, htail, hlength, hblanks, -, hrest⟩
      dsimp only at h
      rw [← List.drop_drop, hdrop, hrest] at h
      split at h
      next hparenthesis =>
          rw [beq_iff_eq] at hparenthesis
          rcases List.head?_eq_some_iff.mp hparenthesis with ⟨header, rfl⟩
          cases h
          refine ⟨blanks, header, by rw [htail], hblanks, by rw [hlength], ?_⟩
          rw [← List.drop_drop, ← List.drop_drop, hdrop, hrest]
          rfl
      · cases h
  · cases h

theorem exists_of_isWordFirst {word : String} {cs : List Char} (h : isWordFirst word cs = true) :
    ∃ after, cs = word.toList ++ after ∧ ∀ c ∈ after.head?, isNameChar c = false := by
  rcases Bool.and_eq_true_iff.mp h with ⟨hfirst, hnext⟩
  rcases List.isPrefixOf_iff_prefix.mp hfirst with ⟨after, rfl⟩
  refine ⟨after, rfl, ?_⟩
  rw [← String.length_toList, List.drop_left] at hnext
  intro c hc
  rcases List.head?_eq_some_iff.mp hc with ⟨rest, rfl⟩
  simpa using hnext

theorem isWordFirst_append (word : String) {after : List Char}
    (h : ∀ c ∈ after.head?, isNameChar c = false) :
    isWordFirst word (word.toList ++ after) = true := by
  have hfirst : word.toList.isPrefixOf (word.toList ++ after) = true :=
    List.isPrefixOf_iff_prefix.mpr (List.prefix_append _ _)
  rw [isWordFirst, hfirst, Bool.true_and, ← String.length_toList, List.drop_left]
  cases after with
  | nil => rfl
  | cons c rest => simp [h c rfl]

theorem nameLength_le (cs : List Char) : nameLength cs ≤ cs.length := by
  cases cs with
  | nil => exact Nat.le_refl 0
  | cons c rest =>
      have htake : (rest.takeWhile isNameChar).length ≤ rest.length :=
        (List.takeWhile_prefix isNameChar).length_le
      rw [nameLength, List.length_cons]
      split <;> omega

theorem exists_of_readTarget {cs : List Char} {pattern : Pattern} {n : Nat}
    (h : readTarget cs = .ok (pattern, n)) :
    ∃ target rest, cs = target ++ rest ∧ target.length = n ∧ IsTarget target := by
  cases cs with
  | nil => cases h
  | cons c rest =>
      unfold readTarget at h
      dsimp only at h
      by_cases hopener : (c == '\x7b' || c == '[') = true
      · rw [if_pos hopener] at h
        have hkind : c = '\x7b' ∨ c = '[' := by simpa using hopener
        have hcloser : closerOf? c = some (if c == '[' then ']' else '\x7d') := by
          rcases hkind with rfl | rfl <;> rfl
        split at h
        · cases h
        next length hlength =>
            rcases map_eq_ok_iff.mp h with ⟨found, -, h⟩
            cases h
            rcases enclosed_of_balancedLength hlength with ⟨inner, after, rfl, rfl, hinner⟩
            exact ⟨_, after, by simp, by simp, .pattern hkind hcloser hinner⟩
      · rw [if_neg hopener] at h
        by_cases hname : nameLength (c :: rest) = 0
        · simp [hname] at h
        · rw [if_neg (by simpa using hname)] at h
          cases h
          refine ⟨_, _, (List.take_append_drop (nameLength (c :: rest)) (c :: rest)).symm, ?_,
            .name (isName_take_nameLength hname)⟩
          exact List.length_take_of_le (nameLength_le (c :: rest))

theorem exists_of_assignmentLength? {cs : List Char} {n : Nat}
    (h : assignmentLength? cs = some n) :
    ∃ gap rest, cs = gap ++ '=' :: rest ∧ Text.allBlank gap = true ∧ n = gap.length + 1 ∧
      rest.head? ≠ some '=' := by
  rcases exists_of_blankLength cs with ⟨gap, after, hcs, hlength, hgap, -, hafter⟩
  unfold assignmentLength? at h
  dsimp only at h
  rw [hafter, ← hlength] at h
  split at h
  next rest =>
      split at h
      · cases h
      next hsecond =>
          cases h
          exact ⟨gap, rest, hcs, hgap, rfl, by simpa using hsecond⟩
  · cases h

theorem exists_of_readAssignment {cs : List Char} {e : String} {n : Nat}
    (h : readAssignment cs = .ok (e, n)) :
    ∃ gap value trail after final,
      cs = gap ++ '=' :: (value ++ ';' :: (trail ++ after)) ∧
        n = gap.length + 1 + value.length + 1 + trail.length ∧
        Text.allBlank gap = true ∧ value.head? ≠ some '=' ∧ Unended 0 value final ∧ final ≤ 0 ∧
        Text.allBlank value = false ∧ Text.allBlank trail = true ∧
        ∀ c ∈ after.head?, Text.isBlank c = false := by
  unfold readAssignment at h
  split at h
  · cases h
  next assignment hassignment =>
      rcases exists_of_assignmentLength? hassignment with ⟨gap, rest, rfl, hgap, rfl, hsecond⟩
      have hdrop : (gap ++ '=' :: rest).drop (gap.length + 1) = rest := by
        rw [← List.drop_drop, List.drop_left]
        rfl
      dsimp only at h
      rw [hdrop] at h
      split at h
      · cases h
      next length hlength =>
          rcases exists_of_statementLength? hlength with
            ⟨skipped, value, behind, final, rfl, hskipped, rfl, hvalue, hfinal⟩
          cases List.length_eq_zero_iff.mp hskipped
          rw [List.nil_append, Nat.zero_add, List.take_left, ← List.drop_drop, List.drop_left] at h
          split at h
          · cases h
          next hink =>
              rcases exists_of_blankLength behind with ⟨trail, after, rfl, htrail, hblank, hend, -⟩
              cases h
              refine ⟨gap, value, trail, after, final, rfl, ?_, hgap, ?_, hvalue, hfinal, ?_,
                hblank, hend⟩
              · rw [htrail]
                rfl
              · cases value with
                | nil => simp
                | cons c others => exact hsecond
              · simpa using hink

theorem exists_of_readDeclaration {cs : List Char} {start n : Nat} {directive : Directive}
    (h : readDeclaration cs start = .ok (directive, n)) :
    ∃ target gap value trail after final,
      cs.drop start = target ++ (gap ++ '=' :: (value ++ ';' :: (trail ++ after))) ∧
        n = start + (target ++ (gap ++ '=' :: (value ++ ';' :: trail))).length ∧
        IsTarget target ∧
        Text.allBlank gap = true ∧ value.head? ≠ some '=' ∧ Unended 0 value final ∧ final ≤ 0 ∧
        Text.allBlank value = false ∧ Text.allBlank trail = true ∧
        ∀ c ∈ after.head?, Text.isBlank c = false := by
  rcases bind_eq_ok_iff.mp h with ⟨⟨pattern, length⟩, htarget, h⟩
  rcases bind_eq_ok_iff.mp h with ⟨⟨e, m⟩, hassignment, h⟩
  cases h
  rcases exists_of_readTarget htarget with ⟨target, rest, hcs, rfl, hkind⟩
  rw [← List.drop_drop, hcs, List.drop_left] at hassignment
  rcases exists_of_readAssignment hassignment with
    ⟨gap, value, trail, after, final, rfl, rfl, hgap, hsecond, hvalue, hfinal, hink, htrail, hend⟩
  refine ⟨target, gap, value, trail, after, final, hcs, ?_, hkind, hgap, hsecond, hvalue, hfinal,
    hink, htrail, hend⟩
  simp only [List.length_append, List.length_cons]
  omega

namespace Directive

theorem not_beginsKeyword {cs : List Char}
    (hheader : (headed.findSome? fun h => (headerStart? h.1 cs).map fun n => (h, n)) = none)
    (hvar : ¬ ("var".toList.isPrefixOf cs && blankLength (cs.drop 3) != 0) = true)
    (helse : ¬ isWordFirst "else" cs = true) (hend : ¬ isWordFirst "end" cs = true) :
    ¬ BeginsKeyword cs := by
  intro h
  cases h with
  | @header keyword blanks rest hkeyword hblanks =>
      have hnames : headerWords = headed.map (·.1) := rfl
      rw [hnames] at hkeyword
      rcases List.mem_map.mp hkeyword with ⟨kind, hkind, rfl⟩
      have hnone := List.findSome?_eq_none_iff.mp hheader kind hkind
      rw [View.headerStart?_append kind.1 blanks hblanks rest] at hnone
      cases hnone
  | @declaration c rest hc =>
      apply hvar
      simp [blankLength, hc]
  | word hword hafter =>
      simp only [bareWords, List.mem_cons, List.not_mem_nil, or_false] at hword
      rcases hword with rfl | rfl
      · exact helse (isWordFirst_append _ hafter)
      · exact hend (isWordFirst_append _ hafter)

theorem occurs_of_readHeader {keyword : String} {cs : List Char} {start n : Nat}
    {meaning : List Char → Except StructureFault Directive} {directive : Directive}
    (hkeyword : keyword ∈ headerWords) (hstart : headerStart? keyword cs = some start)
    (h : readHeader keyword cs start meaning = .ok (directive, n)) :
    ∃ w after, cs = w ++ after ∧ w.length = n ∧ Occurs w after := by
  rcases exists_of_headerStart? hstart with ⟨blanks, rest, rfl, hblanks, rfl, hrest⟩
  rcases bind_eq_ok_iff.mp h with ⟨length, hlength, h⟩
  rcases bind_eq_ok_iff.mp h with ⟨found, -, h⟩
  cases h
  rw [hrest] at hlength
  rcases enclosed_of_balancedLength hlength with ⟨inner, after, rfl, rfl, hinner⟩
  refine ⟨keyword.toList ++ (blanks ++ '(' :: (inner ++ [')'])), after, by simp, ?_,
    .header hkeyword hblanks hinner⟩
  simp only [List.length_append, List.length_cons, List.length_nil, String.length_toList]
  omega

theorem occurs_of_readInterpolation {cs : List Char} {n : Nat} {directive : Directive}
    (hhead : cs.head? = some '\x7b') (h : readInterpolation cs = .ok (directive, n)) :
    ∃ w after, cs = w ++ after ∧ w.length = n ∧ Occurs w after := by
  rcases List.head?_eq_some_iff.mp hhead with ⟨rest, rfl⟩
  rcases bind_eq_ok_iff.mp h with ⟨length, hlength, h⟩
  rcases enclosed_of_balancedLength hlength with ⟨inner, after, hrest, rfl, hinner⟩
  dsimp only at h
  rw [hrest, List.take_left] at h
  split at h
  · cases h
  next hink =>
      cases h
      refine ⟨'\x7b' :: (inner ++ ['\x7d']), after, ?_, by simp,
        .interpolation hinner (by simpa using hink)⟩
      rw [List.drop_succ_cons, List.drop_zero] at hrest
      simp [hrest]

theorem occurs_of_readDeclaration {cs : List Char} {n : Nat} {directive : Directive}
    (hvar : ("var".toList.isPrefixOf cs && blankLength (cs.drop 3) != 0) = true)
    (h : readDeclaration cs (3 + blankLength (cs.drop 3)) = .ok (directive, n)) :
    ∃ w after, cs = w ++ after ∧ w.length = n ∧ Occurs w after := by
  rcases Bool.and_eq_true_iff.mp hvar with ⟨hfirst, hblank⟩
  rcases List.isPrefixOf_iff_prefix.mp hfirst with ⟨tail, rfl⟩
  have htail : ("var".toList ++ tail).drop 3 = tail := rfl
  rcases exists_of_blankLength tail with ⟨blanks, rest, hsplit, hlength, hblanks, -, hrest⟩
  rcases exists_of_readDeclaration h with
    ⟨target, gap, value, trail, after, final, hdrop, rfl, htarget, hgap, hsecond, hvalue, hfinal,
      hink, htrail, hend⟩
  rw [← List.drop_drop, htail, hrest] at hdrop
  rw [htail, ← hlength] at hblank ⊢
  have hsome : blanks ≠ [] := by
    intro hnil
    rw [hnil] at hblank
    cases hblank
  refine ⟨"var".toList ++ (blanks ++ (target ++ (gap ++ '=' :: (value ++ ';' :: trail)))), after,
    by rw [hsplit, hdrop]; simp, ?_, .declaration hblanks hsome htarget hgap hsecond hvalue hfinal
      hink htrail hend⟩
  rw [List.length_append, List.length_append, ← Nat.add_assoc]
  rfl

theorem occurs_of_read? {cs : List Char} {directive : Directive} {n : Nat}
    (h : read? cs = some (.ok (directive, n))) :
    ∃ w after, cs = w ++ after ∧ w.length = n ∧ Occurs w after := by
  unfold read? at h
  split at h
  next hhead => exact occurs_of_readInterpolation (by simpa using hhead) (Option.some.inj h)
  · split at h
    next kind start hkind =>
        rcases List.exists_of_findSome?_eq_some hkind with ⟨given, hgiven, hstart⟩
        rcases Option.map_eq_some_iff.mp hstart with ⟨length, hlength, hpair⟩
        cases hpair
        have hkeyword : kind.1 ∈ headerWords := List.mem_map.mpr ⟨kind, hgiven, rfl⟩
        exact occurs_of_readHeader hkeyword hlength (Option.some.inj h)
    next hheader =>
        split at h
        next hvar => exact occurs_of_readDeclaration hvar (Option.some.inj h)
        next hvar =>
            split at h
            next helse =>
                cases h
                rcases exists_of_isWordFirst helse with ⟨after, rfl, hafter⟩
                exact ⟨_, after, rfl, rfl, .word (by simp [bareWords]) hafter⟩
            next helse =>
                split at h
                next hend =>
                    cases h
                    rcases exists_of_isWordFirst hend with ⟨after, rfl, hafter⟩
                    exact ⟨_, after, rfl, rfl, .word (by simp [bareWords]) hafter⟩
                next hend =>
                    have hkeyword := not_beginsKeyword hheader hvar helse hend
                    by_cases hpath : pathLength cs = 0
                    · simp [hpath] at h
                    · simp only [beq_iff_eq, hpath, if_false, Option.some.injEq,
                        Except.ok.injEq, Prod.mk.injEq] at h
                      rcases exists_of_pathLength hpath with ⟨w, after, rfl, hlength, hw, hafter⟩
                      exact ⟨w, after, rfl, hlength.trans h.2, .shorthand hw hafter hkeyword⟩

/-! # Where no directive begins -/

theorem read?_ne_none_of_head? {cs : List Char} {c : Char} (hhead : cs.head? = some c)
    (hc : c = '\x7b' ∨ isNameStart c = true) : read? cs ≠ none := by
  rcases List.head?_eq_some_iff.mp hhead with ⟨rest, rfl⟩
  unfold read?
  split
  · simp
  next hbrace =>
      split
      · simp
      · split
        · simp
        · split
          · simp
          · split
            · simp
            · have hstart : isNameStart c = true := by
                rcases hc with rfl | hstart
                · exact absurd rfl hbrace
                · exact hstart
              have hlength : ¬ (pathLength (c :: rest) == 0) = true := by
                simp [pathLength, hstart]
              dsimp only
              rw [if_neg hlength]
              simp

theorem read?_eq_none_iff {cs : List Char} :
    read? cs = none ↔ ∀ c ∈ cs.head?, c ≠ '\x7b' ∧ isNameStart c = false := by
  constructor
  · intro h c hc
    constructor
    · rintro rfl
      exact read?_ne_none_of_head? hc (.inl rfl) h
    · cases hstart : isNameStart c with
      | false => rfl
      | true => exact absurd h (read?_ne_none_of_head? hc (.inr hstart))
  · intro h
    have hword {first : Char} {others : List Char} (hstart : isNameStart first = true) :
        ¬ first :: others <+: cs := by
      rintro ⟨rest, rfl⟩
      rw [(h first rfl).2] at hstart
      cases hstart
    have hbrace : ¬ (cs.head? == some '\x7b') = true := by
      intro hhead
      exact (h _ (by simpa using hhead)).1 rfl
    have hheader :
        (headed.findSome? fun h => (headerStart? h.1 cs).map fun n => (h, n)) = none := by
      simp (disch := decide) [headed, headerStart?, hword]
    have hpath : pathLength cs = 0 := by
      cases cs with
      | nil => rfl
      | cons c rest => simp [pathLength, (h c rfl).2]
    unfold read?
    rw [if_neg hbrace, hheader]
    simp (disch := decide) [isWordFirst, hword, hpath]

end Directive

end Stencil
