import Mathlib
import Stencil.Call.Builtin
import Stencil.Proofs.Json.Data
import Stencil.Proofs.Json.Reading

/-!
# Written documents are read back

A style is readable if it separates the parts of a document by the marks of the grammar and by
gaps. Whatever plain document is written in such a style, at whatever depth, the reader takes its
text from the front and gives the document again. So the built-in helpers that write data as JSON
are undone by the one that reads it.
-/

namespace Stencil
namespace Json

theorem points_append (s t : Text) : (s ++ t).points = s.points ++ t.points := rfl

/-! # Gaps and marks -/

def IsGapText (gap : List CodePoint) : Prop := ∀ p ∈ gap, isGap p = true

theorem skipGap_cons {p : CodePoint} (hp : isGap p = false) (rest : List CodePoint) :
    skipGap (p :: rest) = p :: rest :=
  List.dropWhile_cons_of_neg (by simp [hp])

theorem skipGap_append {gap : List CodePoint} (hgap : IsGapText gap) {p : CodePoint}
    (hp : isGap p = false) (rest : List CodePoint) : skipGap (gap ++ p :: rest) = p :: rest := by
  rw [skipGap, List.dropWhile_append_of_pos hgap]
  exact skipGap_cons hp rest

def closers : List Char := [',', ']', '\x7d']

theorem isGap_closer {c : Char} (hc : c ∈ closers) : isGap (.char c) = false := by
  fin_cases hc <;> decide

theorem ends_cons {c : Char} (hc : c ∈ closers) (rest : List CodePoint) :
    Ends (.char c :: rest) := by
  rintro _ ⟨⟩
  fin_cases hc <;> decide

theorem ends_append {gap : List CodePoint} (hgap : IsGapText gap) {c : Char} (hc : c ∈ closers)
    (rest : List CodePoint) : Ends (gap ++ .char c :: rest) := by
  rcases gap with _ | ⟨p, gap⟩
  · exact ends_cons hc rest
  · rintro d hd
    cases Option.some.inj hd
    have hblank := hgap _ List.mem_cons_self
    simp only [isGap, Bool.or_eq_true, beq_iff_eq, CodePoint.char.injEq] at hblank
    rcases hblank with ((rfl | rfl) | rfl) | rfl <;> decide

def IsMark (c : Char) (t : Text) : Prop :=
  ∃ gap, t.points = .char c :: gap ∧ IsGapText gap

theorem IsMark.append {c : Char} {t gap : Text} (h : IsMark c t) (hgap : IsGapText gap.points) :
    IsMark c (t ++ gap) := by
  rcases h with ⟨first, hpoints, hfirst⟩
  exact ⟨first ++ gap.points, by rw [points_append, hpoints, List.cons_append],
    List.forall_mem_append.mpr ⟨hfirst, hgap⟩⟩

/-- Whether a style puts the marks of the grammar between parts and escapes only what it must. -/
structure IsReadable (style : JsonStyle) : Prop where
  comma : IsMark ',' style.comma
  colon : IsMark ':' style.colon
  verbatim : style.asciiOnly = false

theorem isReadable_compact : IsReadable .compact :=
  ⟨⟨[], rfl, by simp [IsGapText]⟩, ⟨[], rfl, by simp [IsGapText]⟩, rfl⟩

theorem isReadable_indented (step : Nat) : IsReadable (.indented step) :=
  ⟨⟨[], rfl, by simp [IsGapText]⟩, ⟨[.char ' '], rfl, by simp [IsGapText, isGap]⟩, rfl⟩

theorem isGapText_lineBreak (style : JsonStyle) (depth : Nat) :
    IsGapText (lineBreak style depth).points := by
  intro p hp
  rw [lineBreak] at hp
  split at hp
  · rcases List.mem_map.mp hp with ⟨c, hc, rfl⟩
    rcases List.mem_cons.mp hc with rfl | hc
    · decide
    · rw [List.eq_of_mem_replicate hc]
      decide
  · cases hp

theorem IsReadable.separator {style : JsonStyle} (h : IsReadable style) (depth : Nat) :
    IsMark ',' (separator style depth) :=
  h.comma.append (isGapText_lineBreak style depth)

/-! # Parts -/

section Parts

variable {α : Type}

abbrev Reading (α : Type) : Type := Nat → List CodePoint → Option (α × List CodePoint)

/--
Whether a text is taken from the front, whatever follows it, and gives something. A part of a
document takes two readings at most for each of its code points, one for itself and one for the
row that it begins.
-/
structure ReadsBack (read : Reading α) (t : Text) (result : α) : Prop where
  begins : ∃ p more, t.points = p :: more ∧ isGap p = false ∧ ∀ c ∈ closers, p ≠ .char c
  reads : ∀ budget rest, 2 * t.length ≤ budget → Ends rest →
    read budget (t.points ++ rest) = some (result, rest)

theorem ReadsBack.skipGap {read : Reading α} {t : Text} {result : α}
    (h : ReadsBack read t result) {gap : List CodePoint} (hgap : IsGapText gap)
    (rest : List CodePoint) : skipGap (gap ++ (t.points ++ rest)) = t.points ++ rest := by
  rcases h.begins with ⟨p, more, hpoints, hp, -⟩
  rw [hpoints, List.cons_append, skipGap_append hgap hp]

end Parts

/-! # Scalars -/

def marks : List Char := ['"', '[', '\x7b', ' ', '\t', '\n', '\r', ',', ']', '\x7d']

theorem readValue_bare {c : Char} (hc : c ∉ ['"', '[', '\x7b']) (budget : Nat)
    (rest : List CodePoint) :
    readValue (budget + 1) (.char c :: rest) =
      (readWord? (.char c :: rest)).or (readNumber (.char c :: rest)) := by
  simp only [List.mem_cons, List.not_mem_nil, or_false, not_or] at hc
  rcases hc with ⟨hquote, hlist, hobject⟩
  rw [readValue]
  simp only [beq_iff_eq, CodePoint.char.injEq, hquote, hlist, hobject, if_false]
  cases readWord? (.char c :: rest) <;> rfl

theorem readsBack_bare {t : Text} {d : Document} {c : Char} {more : List CodePoint}
    (ht : t.points = .char c :: more) (hc : c ∉ marks)
    (hread : ∀ rest, Ends rest →
      (readWord? (t.points ++ rest)).or (readNumber (t.points ++ rest)) = some (d, rest)) :
    ReadsBack readValue t d := by
  simp only [marks, List.mem_cons, List.not_mem_nil, or_false, not_or] at hc
  refine ⟨⟨_, _, ht, by simp [isGap, hc], by simp [closers, hc]⟩, ?_⟩
  intro budget rest hbudget hrest
  have hlength : t.length = more.length + 1 := by rw [Text.length, ht, List.length_cons]
  obtain ⟨left, rfl⟩ : ∃ left, budget = left + 1 := ⟨budget - 1, by omega⟩
  rw [← hread rest hrest, ht, List.cons_append, readValue_bare (by simp [hc])]

theorem readsBack_null : ReadsBack readValue "null" .null :=
  readsBack_bare rfl (by decide) fun _ _ => rfl

theorem readsBack_boolText (b : Bool) : ReadsBack readValue (boolText b) (.bool b) := by
  cases b with
  | false => exact readsBack_bare rfl (by decide) fun _ _ => rfl
  | true => exact readsBack_bare rfl (by decide) fun _ _ => rfl

open NumberText

theorem not_mem_of_beginsNumber {c : Char} (h : BeginsNumber c) :
    c ∉ marks ∧ c ∉ initials := by
  constructor <;>
  · intro hc
    fin_cases hc <;> simp [BeginsNumber] at h

theorem readsBack_signed {s : Spelling} (hs : s.IsProper) (negative : Bool) :
    ReadsBack readValue (Text.ofChars (NumberLayout.signed negative s.chars))
      (documentOf s negative) := by
  rcases exists_signed_cons hs negative with ⟨c, cs, hchars, hc⟩
  have hpoints : (Text.ofChars (NumberLayout.signed negative s.chars)).points =
      .char c :: cs.map .char := by rw [hchars]; rfl
  rcases not_mem_of_beginsNumber hc with ⟨hmark, hinitial⟩
  refine readsBack_bare hpoints hmark fun rest hrest => ?_
  rw [hpoints, List.cons_append, readWord?_cons hinitial, Option.none_or, ← List.cons_append,
    ← hpoints]
  exact readNumber_signed hrest hs negative

theorem readsBack_intText (n : Int) : ReadsBack readValue (intText n) (.int n) := by
  have hproper : Spelling.IsProper ⟨Text.decimal n.natAbs, [], none⟩ := by
    refine ⟨Text.allDigits_decimal _, Nat.toDigits_ne_nil, ?_, by simp [Text.AllDigits], by simp⟩
    intro hzero
    have hn : n.natAbs = 0 := by_contra fun hne => Text.head_decimal hne hzero
    rw [hn]
    rfl
  have hread := readsBack_signed hproper (decide (n < 0))
  have hchars : NumberLayout.signed (decide (n < 0))
      (Spelling.chars ⟨Text.decimal n.natAbs, [], none⟩) = Text.decimalInt n := by
    rw [NumberLayout.signed, Text.decimalInt, Spelling.chars]
    simp [Spelling.fractionText, Spelling.exponentText]
  have hvalue : documentOf ⟨Text.decimal n.natAbs, [], none⟩ (decide (n < 0)) = .int n := by
    simp only [documentOf, List.isEmpty_nil, Option.isNone_none, Bool.and_self, if_true,
      Text.numberOf_decimal, decide_eq_true_eq, Document.int.injEq]
    split <;> omega
  rw [hchars, hvalue] at hread
  exact hread

theorem readsBack_dataText {x : Binary64} (hx : x.isFinite = true) :
    ReadsBack readValue x.dataText (.float x) := by
  rcases x with _ | _ | ⟨negative, rank⟩
  · cases hx
  · cases hx
  rcases exists_spells rank with ⟨s, hs⟩
  have hread := readsBack_signed hs.proper negative
  have hfloat : (s.fraction.isEmpty && s.exponent.isNone) = false := by
    rw [Bool.and_eq_false_iff, List.isEmpty_eq_false_iff, Option.isNone_eq_false_iff,
      Option.isSome_iff_ne_none]
    exact hs.marked
  have htext : ((Binary64.finite negative rank).dataText : Text) =
      Text.ofChars (NumberLayout.signed negative s.chars) := by
    rw [← hs.chars, Binary64.dataText, Text.ofString, String.toList_ofList]
  rw [documentOf, hfloat, if_neg Bool.false_ne_true, hs.reads] at hread
  rw [htext]
  exact hread

theorem readsBack_writeText (t : Text) : ReadsBack readValue (writeText false t) (.str t) := by
  refine ⟨⟨.char '"', _, rfl, by decide, by simp [closers]⟩, ?_⟩
  intro budget rest hbudget hrest
  obtain ⟨left, rfl⟩ : ∃ left, budget = left + 1 := by
    refine ⟨budget - 1, ?_⟩
    have hlength : 0 < (writeText false t).length := Nat.succ_pos _
    omega
  rw [writeText_append, readValue, if_pos (by decide), readText_points]
  rfl

theorem readsBack_nil : ReadsBack readValue "[]" (.list []) := by
  refine ⟨⟨.char '[', _, rfl, by decide, by simp [closers]⟩, ?_⟩
  intro budget rest hbudget hrest
  have hlength : Text.length "[]" = 2 := rfl
  obtain ⟨left, rfl⟩ : ∃ left, budget = left + 1 := ⟨budget - 1, by omega⟩
  rfl

theorem readsBack_empty : ReadsBack readValue "\x7b\x7d" (.object []) := by
  refine ⟨⟨.char '\x7b', _, rfl, by decide, by simp [closers]⟩, ?_⟩
  intro budget rest hbudget hrest
  have hlength : Text.length "\x7b\x7d" = 2 := rfl
  obtain ⟨left, rfl⟩ : ∃ left, budget = left + 1 := ⟨budget - 1, by omega⟩
  rfl

/-! # Rows -/

section Rows

variable {α : Type}

/--
Whether the reader takes rows between two brackets: there is a reading for the parts, and one for
rows of them that starts after the opening bracket.
-/
structure IsRow (readPart : Reading α) (readRow : Reading (List α)) (opening closing : Char)
    (make : List α → Document) : Prop where
  brackets : opening ∈ ['[', '\x7b'] ∧ closing ∈ closers
  starts : ∀ {budget points}, (∀ more, skipGap points ≠ .char closing :: more) →
    readValue (budget + 1) (.char opening :: points) =
      (readRow budget (skipGap points)).map fun r => (make r.1, r.2)
  last : ∀ {budget points rest more first}, readPart budget points = some (first, rest) →
    skipGap rest = .char closing :: more → readRow (budget + 1) points = some ([first], more)
  next : ∀ {budget points rest more first}, readPart budget points = some (first, rest) →
    skipGap rest = .char ',' :: more →
      readRow (budget + 1) points =
        (readRow budget (skipGap more)).map fun r => (first :: r.1, r.2)

def Continues (readPart : Reading α) (readRow : Reading (List α)) (closing : Char) (tail : Text)
    (parts : List α) : Prop :=
  ∀ (head : Text) (first : α), ReadsBack readPart head first →
    ∀ gap, IsGapText gap → ∀ budget rest, 2 * (head.length + tail.length) < budget →
      readRow budget (head.points ++ (tail.points ++ (gap ++ .char closing :: rest))) =
        some (first :: parts, rest)

variable {readPart : Reading α} {readRow : Reading (List α)} {opening closing : Char}
  {make : List α → Document} (hrow : IsRow readPart readRow opening closing make)

include hrow

theorem IsRow.continues_nil : Continues readPart readRow closing "" [] := by
  intro head first hhead gap hgap budget rest hbudget
  obtain ⟨left, rfl⟩ : ∃ left, budget = left + 1 := ⟨budget - 1, by omega⟩
  have hclosing := hrow.brackets.2
  exact hrow.last (hhead.reads left _ (by omega) (ends_append hgap hclosing rest))
    (skipGap_append hgap (isGap_closer hclosing) rest)

theorem IsRow.continues_cons {separator head tail : Text} {second : α} {parts : List α}
    (hseparator : IsMark ',' separator) (hhead : ReadsBack readPart head second)
    (htail : Continues readPart readRow closing tail parts) :
    Continues readPart readRow closing (separator ++ (head ++ tail)) (second :: parts) := by
  intro before first hbefore gap hgap budget rest hbudget
  rcases hseparator with ⟨space, hcomma, hspace⟩
  have hlength : separator.length = space.length + 1 := by
    rw [Text.length, hcomma, List.length_cons]
  rw [Text.length_append, Text.length_append] at hbudget
  obtain ⟨left, rfl⟩ : ∃ left, budget = left + 1 := ⟨budget - 1, by omega⟩
  have hparts := htail head second hhead gap hgap left rest (by omega)
  have hpoints : (separator ++ (head ++ tail)).points ++ (gap ++ .char closing :: rest) =
      .char ',' :: (space ++ (head.points ++ (tail.points ++ (gap ++ .char closing :: rest)))) := by
    simp only [points_append, hcomma, List.cons_append, List.append_assoc]
  have hread := hbefore.reads left _ (by omega) (ends_cons (c := ',') (by decide)
    (space ++ (head.points ++ (tail.points ++ (gap ++ .char closing :: rest)))))
  rw [hpoints, hrow.next hread (skipGap_cons (by decide) _), hhead.skipGap hspace, hparts]
  rfl

theorem IsRow.readsBack {before head tail after : Text} {first : α} {parts : List α}
    (hbefore : IsGapText before.points) (hafter : IsGapText after.points)
    (hhead : ReadsBack readPart head first)
    (htail : Continues readPart readRow closing tail parts) :
    ReadsBack readValue (Text.singleton (.char opening) ++
      (before ++ (head ++ (tail ++ (after ++ Text.singleton (.char closing))))))
      (make (first :: parts)) := by
  refine ⟨⟨.char opening, _, rfl, ?_⟩, ?_⟩
  · rcases hrow.brackets with ⟨hopening, -⟩
    fin_cases hopening <;> simp [isGap, closers]
  intro budget rest hbudget hrest
  simp only [Text.length_append] at hbudget
  have hbracket : (Text.singleton (.char opening)).length = 1 := rfl
  obtain ⟨left, rfl⟩ : ∃ left, budget = left + 1 := ⟨budget - 1, by omega⟩
  have hparts := htail head first hhead after.points hafter left rest (by omega)
  obtain ⟨more, hmore⟩ : ∃ more,
      tail.points ++ (after.points ++ .char closing :: rest) = more := ⟨_, rfl⟩
  have hpoints : (Text.singleton (.char opening) ++ (before ++ (head ++ (tail ++
      (after ++ Text.singleton (.char closing)))))).points ++ rest =
        .char opening :: (before.points ++ (head.points ++ more)) := by
    simp only [← hmore, points_append, Text.singleton, List.append_assoc, List.cons_append,
      List.nil_append]
  have hinner := hhead.skipGap hbefore more
  -- The first part does not begin with a closing bracket, so the row is not taken to be empty.
  have hne : ∀ beyond, skipGap (before.points ++ (head.points ++ more)) ≠
      .char closing :: beyond := by
    rcases hhead.begins with ⟨p, others, hp, -, hne⟩
    intro beyond heq
    rw [hinner, hp, List.cons_append] at heq
    exact hne closing hrow.brackets.2 (List.cons.inj heq).1
  rw [hpoints, hrow.starts hne, hinner, ← hmore, hparts]
  rfl

end Rows

/-! # Lists and objects -/

theorem isRow_items : IsRow readValue readItems '[' ']' .list where
  brackets := by decide
  starts {budget points} h := by
    rw [readValue, if_neg (by decide), if_pos (by decide)]
    split
    · rename_i more heq
      exact absurd heq (h more)
    · rfl
  last hread hrest := by
    rw [readItems, hread]
    dsimp only
    rw [hrest]
    rfl
  next hread hrest := by
    rw [readItems, hread]
    dsimp only
    rw [hrest]
    rfl

theorem isRow_members : IsRow readMember readMembers '\x7b' '\x7d' .object where
  brackets := by decide
  starts {budget points} h := by
    rw [readValue, if_neg (by decide), if_neg (by decide), if_pos (by decide)]
    split
    · rename_i more heq
      exact absurd heq (h more)
    · rfl
  last hread hrest := by
    rw [readMembers, hread]
    dsimp only
    rw [hrest]
    rfl
  next hread hrest := by
    rw [readMembers, hread]
    dsimp only
    rw [hrest]
    rfl

theorem readsBack_member {colon head : Text} {d : Document} (hcolon : IsMark ':' colon)
    (hhead : ReadsBack readValue head d) (name : Text) :
    ReadsBack readMember (writeText false name ++ (colon ++ head)) (.str name, d) := by
  refine ⟨⟨.char '"', _, rfl, by decide, by simp [closers]⟩, ?_⟩
  intro budget rest hbudget hrest
  rcases hcolon with ⟨space, hpoints, hspace⟩
  have hlength : 0 < (writeText false name).length := Nat.succ_pos _
  simp only [Text.length_append] at hbudget
  obtain ⟨left, rfl⟩ : ∃ left, budget = left + 1 := ⟨budget - 1, by omega⟩
  have hmember : (writeText false name ++ (colon ++ head)).points ++ rest =
      (writeText false name).points ++ (.char ':' :: (space ++ (head.points ++ rest))) := by
    simp only [points_append, hpoints, List.cons_append, List.append_assoc]
  have hvalue := hhead.reads left rest (by omega) hrest
  rw [hmember, writeText_append, readMember, readText_points]
  dsimp only
  rw [skipGap_cons (by decide)]
  show (readValue left (skipGap (space ++ (head.points ++ rest)))).map _ = _
  rw [hhead.skipGap hspace, hvalue]
  rfl

/-! # Documents -/

section Write

variable {style : JsonStyle} (hstyle : IsReadable style)

include hstyle

mutual

theorem readsBack_write : (d : Document) → d.IsPlain → (depth : Nat) → (t : Text) →
    write style depth d = .ok t → ReadsBack readValue t d
  | .null, h, depth, t, ht => by
      cases ht
      exact readsBack_null
  | .bool b, h, depth, t, ht => by
      cases ht
      exact readsBack_boolText b
  | .int n, h, depth, t, ht => by
      cases ht
      exact readsBack_intText n
  | .float x, .float h, depth, t, ht => by
      rw [write, floatText, if_pos h] at ht
      cases ht
      exact readsBack_dataText h
  | .str s, h, depth, t, ht => by
      rw [write, hstyle.verbatim] at ht
      cases ht
      exact readsBack_writeText s
  | .list [], h, depth, t, ht => by
      cases ht
      exact readsBack_nil
  | .list (first :: rest), .list h, depth, t, ht => by
      rcases List.forall_mem_cons.mp h with ⟨hfirst, hrest⟩
      rcases exists_write style first hfirst (depth + 1) with ⟨head, hhead⟩
      rcases exists_writeItems style rest hrest (depth + 1) with ⟨tail, htail⟩
      rw [write, hhead, htail] at ht
      cases ht
      exact isRow_items.readsBack (isGapText_lineBreak _ _) (isGapText_lineBreak _ _)
        (readsBack_write first hfirst _ _ hhead) (continues_writeItems rest hrest _ _ htail)
  | .object [], h, depth, t, ht => by
      cases ht
      exact readsBack_empty
  | .object ((key, first) :: rest), .object hkeys h, depth, t, ht => by
      rcases hkeys _ List.mem_cons_self with ⟨name, rfl⟩
      rcases List.forall_mem_cons.mp h with ⟨hfirst, hrest⟩
      rcases exists_write style first hfirst (depth + 1) with ⟨head, hhead⟩
      rcases exists_writeEntries style rest hkeys.tail hrest (depth + 1) with ⟨tail, htail⟩
      rw [write, hhead, htail, hstyle.verbatim] at ht
      cases ht
      have hread := isRow_members.readsBack (isGapText_lineBreak style (depth + 1))
        (isGapText_lineBreak style depth)
        (readsBack_member hstyle.colon (readsBack_write first hfirst _ _ hhead) name)
        (continues_writeEntries rest hkeys.tail hrest _ _ htail)
      rw [Text.append_assoc, Text.append_assoc] at hread
      exact hread

theorem continues_writeItems : (items : List Document) → (∀ d ∈ items, d.IsPlain) →
    (depth : Nat) → (tail : Text) → writeItems style depth items = .ok tail →
      Continues readValue readItems ']' tail items
  | [], h, depth, tail, htail => by
      cases htail
      exact isRow_items.continues_nil
  | d :: rest, h, depth, t, ht => by
      rcases List.forall_mem_cons.mp h with ⟨hfirst, hrest⟩
      rcases exists_write style d hfirst depth with ⟨head, hhead⟩
      rcases exists_writeItems style rest hrest depth with ⟨tail, htail⟩
      rw [writeItems, hhead, htail] at ht
      cases ht
      exact isRow_items.continues_cons (hstyle.separator depth)
        (readsBack_write d hfirst _ _ hhead) (continues_writeItems rest hrest _ _ htail)

theorem continues_writeEntries : (entries : List (Key × Document)) → Entries.AllText entries →
    (∀ entry ∈ entries, entry.2.IsPlain) → (depth : Nat) → (tail : Text) →
      writeEntries style depth entries = .ok tail →
        Continues readMember readMembers '\x7d' tail entries
  | [], hkeys, h, depth, tail, htail => by
      cases htail
      exact isRow_members.continues_nil
  | (key, d) :: rest, hkeys, h, depth, t, ht => by
      rcases hkeys _ List.mem_cons_self with ⟨name, rfl⟩
      rcases List.forall_mem_cons.mp h with ⟨hfirst, hrest⟩
      rcases exists_write style d hfirst depth with ⟨head, hhead⟩
      rcases exists_writeEntries style rest hkeys.tail hrest depth with ⟨tail, htail⟩
      rw [writeEntries, hhead, htail, hstyle.verbatim] at ht
      cases ht
      have hread := isRow_members.continues_cons (hstyle.separator depth)
        (readsBack_member hstyle.colon (readsBack_write d hfirst _ _ hhead) name)
        (continues_writeEntries rest hkeys.tail hrest _ _ htail)
      rw [Text.append_assoc, Text.append_assoc] at hread
      exact hread

end

end Write

theorem read?_of_readsBack {t : Text} {d : Document} (h : ReadsBack readValue t d) :
    read? t = some d := by
  have hskip : skipGap t.points = t.points := by
    rcases h.begins with ⟨p, more, hpoints, hp, -⟩
    rw [hpoints, skipGap_cons hp]
  have hread := h.reads (2 * t.length + 2) [] (by omega) fun c hc => by cases hc
  rw [List.append_nil] at hread
  rw [read?, hskip, hread]
  rfl

theorem read?_text {style : JsonStyle} (hstyle : IsReadable style) {d : Document}
    (hd : d.IsPlain) : ∃ t, text style d = .ok t ∧ read? t = some d := by
  rcases exists_write style d hd 0 with ⟨t, ht⟩
  exact ⟨t, ht, read?_of_readsBack (readsBack_write hstyle d hd 0 t ht)⟩

end Json

/-! # Helpers -/

namespace Builtin

theorem isReadable_styleFor (indent : Option Nat) : Json.IsReadable (styleFor indent) := by
  cases indent with
  | none => exact Json.isReadable_compact
  | some step => exact Json.isReadable_indented step

inductive Writes (v : Value) : Builtin → List Value → Prop where
  | json : Writes v .json [v]
  | stringify : Writes v .stringify [v]
  | replaced (replacer : Value) : Writes v .stringify [v, replacer]
  | spaced (replacer space : Value) (h : ∀ negative, space ≠ .float (.infinity negative)) :
      Writes v .stringify [v, replacer, space]

theorem exists_jsonText {v : Value} (hv : v.IsData) {style : JsonStyle}
    (hstyle : Json.IsReadable style) (σ τ : Store) :
    ∃ t, σ.jsonText style v = .ok t ∧ parseValue τ (.str t) = .ok v := by
  rcases Store.exists_standsFor v hv with ⟨d, hd⟩
  rcases Json.read?_text hstyle hd.plain with ⟨t, htext, hread⟩
  refine ⟨t, ?_, ?_⟩
  · rw [Store.jsonText, Store.document, hd.document]
    exact htext
  · rw [parseValue, hread, ← hd.value]

theorem exists_stringifyValue {v : Value} (hv : v.IsData) {space : Value}
    (hspace : ∀ negative, space ≠ .float (.infinity negative)) (σ τ : Store) :
    ∃ t, stringifyValue σ v space = .ok (.str t) ∧ parseValue τ (.str t) = .ok v := by
  have hwritten : (v.isUndefined || v.isCallable) = false := by
    cases hv <;> rfl
  rcases indentStep_cases space with ⟨hinfinite, -⟩ | ⟨-, indent, hindent, -⟩
  · exact absurd hinfinite (hspace false)
  · rcases exists_jsonText hv (isReadable_styleFor indent) σ τ with ⟨t, htext, hparse⟩
    refine ⟨t, ?_, hparse⟩
    rw [stringifyValue_of_indentStep hwritten hindent, htext]
    rfl

/--
Whatever data is written as JSON, by either helper and with any indentation, is read as the same
data: with the same kinds of numbers and the keys in the same order.
-/
theorem parse_written {v : Value} (hv : v.IsData) {function : Builtin} {args : List Value}
    (h : Writes v function args) (σ τ : Store) :
    ∃ t, run σ function args = .ok (.str t) ∧ run τ .parse [.str t] = .ok v := by
  cases h with
  | json =>
      rcases exists_jsonText hv Json.isReadable_compact σ τ with ⟨t, htext, hparse⟩
      refine ⟨t, ?_, hparse⟩
      rw [run, htext]
      rfl
  | stringify => exact exists_stringifyValue hv (by simp) σ τ
  | replaced replacer => exact exists_stringifyValue hv (by simp) σ τ
  | spaced replacer space hspace => exact exists_stringifyValue hv hspace σ τ

example :
    run (.ofData [] []) .stringify [.list [.int 1, .map [(.str "a", .null)]], .null, .int 1] =
      .ok (.str "[\n 1,\n \x7b\n  \"a\": null\n \x7d\n]") := rfl

def parcelParts : List Value :=
  [ .null, .bool false, .int (10 ^ 30), .int (-7), .float (.zero true),
    .float (.finite false ⟨1, by decide⟩),
    .str ⟨[.char '"', .char '\\', .char '\n', .char (Char.ofNat 1), .char 'é', .surrogate 5]⟩,
    .list [], .map [] ]

def parcel : Value :=
  .map [(.str "parts", .list parcelParts),
    (.str "", .map [(.str "b", .int 1), (.str "a", .bool true)])]

theorem parcel_isData : parcel.IsData := by
  have hparts : ∀ v ∈ parcelParts, v.IsData := by
    simp only [parcelParts, List.forall_mem_cons]
    exact ⟨.null, .bool _, .int _, .int _, .float rfl, .float rfl, .str _, .list (by simp),
      .map .nil (by simp [Entries.AllText]) (by simp), by simp⟩
  have hinner : (Value.map [(.str "b", .int 1), (.str "a", .bool true)]).IsData := by
    refine .map (List.pairwise_pair.mpr (by decide)) (by simp [Entries.AllText]) ?_
    simp only [List.forall_mem_cons]
    exact ⟨.int _, .bool _, by simp⟩
  refine .map (List.pairwise_pair.mpr (by decide)) (by simp [Entries.AllText]) ?_
  simp only [List.forall_mem_cons]
  exact ⟨.list hparts, hinner, by simp⟩

theorem parse_written_parcel :
    parcel.IsData ∧
      Writes parcel .stringify [parcel, .undefined, .int 3] ∧
      ∃ t, run (.ofData [] []) .stringify [parcel, .undefined, .int 3] = .ok (.str t) ∧
        run (.ofData [] []) .parse [.str t] = .ok parcel :=
  have hspaced : Writes parcel .stringify [parcel, .undefined, .int 3] :=
    .spaced .undefined (.int 3) (by simp)
  ⟨parcel_isData, hspaced, parse_written parcel_isData hspaced (.ofData [] []) (.ofData [] [])⟩

end Builtin
end Stencil
