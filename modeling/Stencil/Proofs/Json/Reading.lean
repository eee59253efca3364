import Mathlib
import Stencil.Json.Reader
import Stencil.Json.Writer
import Stencil.Proofs.Number.Reading

/-!
# Reading texts, words and numbers

What the JSON reader makes of the scalars that the writer puts down. The text of each scalar
is taken from the front, whatever follows it, and denotes the scalar again. Of a number this
needs that what follows cannot continue it.
-/

namespace Stencil
namespace Json

/-! # Texts -/

theorem eq_char_of_code {p : CodePoint} {code : Nat} (h : p.code = code)
    (hlow : code < CodePoint.firstSurrogate) : p = .char (Char.ofNat code) := by
  cases p with
  | char c =>
      rw [← h]
      exact congrArg CodePoint.char (Char.ofNat_toNat c).symm
  | surrogate index =>
      have hcode : CodePoint.firstSurrogate + index = code := h
      omega

theorem readText_simple {c e : Char} (he : simpleEscape? c = some e) (rest : List CodePoint) :
    readText 0 (.char '\\' :: .char c :: rest) = (readText 0 rest).map (pushPoint e) := by
  have hc : c ≠ 'u' := by
    rintro rfl
    cases he
  rw [readText.eq_def]
  simp [he, readText]

theorem readText_plain {p : CodePoint} (hquote : p ≠ .char '"') (hslash : p ≠ .char '\\')
    (hcode : ¬ p.code < 32) (rest : List CodePoint) :
    readText 0 (p :: rest) = (readText 0 rest).map (pushPoint p) := by
  rw [readText.eq_def]
  split <;> simp_all

theorem pairedEscape?_char (c : Char) (rest : List CodePoint) :
    pairedEscape? (.char c) rest = none := by
  unfold pairedEscape?
  split
  · exact Option.bind_fun_none _
  · rfl

theorem hexDigits_control : ∀ code < 32,
    Text.hexDigits 4 code = ['0', '0', Nat.digitChar (code / 16), Nat.digitChar (code % 16)] ∧
      hexQuad? '0' '0' (Nat.digitChar (code / 16)) (Nat.digitChar (code % 16)) = some code := by
  decide

theorem readText_unicode {code : Nat} (hcode : code < 32) (rest : List CodePoint) :
    readText 0 ((unicodeEscape code).map .char ++ rest) =
      (readText 0 rest).map (pushPoint (.char (Char.ofNat code))) := by
  rcases hexDigits_control code hcode with ⟨hdigits, hquad⟩
  have hpoint : CodePoint.ofCode code = .char (Char.ofNat code) := by
    rw [CodePoint.ofCode, dif_neg]
    simp only [CodePoint.firstSurrogate]
    omega
  rw [unicodeEscape, hdigits, readText.eq_def]
  simp [escapedPoint?, hquad, hpoint, pairedEscape?_char, readText]

theorem readText_writePoint (p : CodePoint) (rest : List CodePoint) :
    readText 0 (writePoint false p ++ rest) = (readText 0 rest).map (pushPoint p) := by
  rw [writePoint, escape?]
  simp only [beq_iff_eq, Bool.false_and, Bool.or_false, decide_eq_true_eq]
  split_ifs with hquote hslash hline hreturn htab hback hfeed hcontrol
  · exact hquote ▸ readText_simple rfl rest
  · exact hslash ▸ readText_simple rfl rest
  · exact hline ▸ readText_simple rfl rest
  · exact hreturn ▸ readText_simple rfl rest
  · exact htab ▸ readText_simple rfl rest
  · rw [eq_char_of_code hback (by decide)]
    exact readText_simple rfl rest
  · rw [eq_char_of_code hfeed (by decide)]
    exact readText_simple rfl rest
  · have hbelow : p.code < CodePoint.firstSurrogate := Nat.lt_trans hcontrol (by decide)
    have hplane : p.code < 0x10000 := Nat.lt_trans hcontrol (by decide)
    rw [asciiEscape, if_pos hplane]
    conv_rhs => rw [eq_char_of_code rfl hbelow]
    exact readText_unicode hcontrol rest
  · exact readText_plain hquote hslash hcontrol rest

theorem readText_points (points rest : List CodePoint) :
    readText 0 (points.flatMap (writePoint false) ++ .char '"' :: rest) = some (points, rest) := by
  induction points with
  | nil => rfl
  | cons p points ih =>
      rw [List.flatMap_cons, List.append_assoc, readText_writePoint, ih]
      rfl

theorem writeText_append (t : Text) (rest : List CodePoint) :
    (writeText false t).points ++ rest =
      .char '"' :: (t.points.flatMap (writePoint false) ++ .char '"' :: rest) :=
  congrArg (CodePoint.char '"' :: ·) (List.append_assoc _ [.char '"'] rest)

/-! # Words -/

theorem dropWord?_cons {word : Text} {first p : CodePoint}
    (hword : word.points.head? = some first) (h : first ≠ p) (rest : List CodePoint) :
    dropWord? word (p :: rest) = none := by
  rcases List.head?_eq_some_iff.mp hword with ⟨more, hpoints⟩
  rw [dropWord?, hpoints, List.isPrefixOf, beq_false_of_ne h, Bool.false_and,
    if_neg Bool.false_ne_true]

def initials : List Char := ['n', 't', 'f', 'N', 'I']

theorem readWord?_cons {c : Char} (h : c ∉ initials) (rest : List CodePoint) :
    readWord? (.char c :: rest) = none := by
  have hnone : ∀ word ∈ words, dropWord? word.1 (.char c :: rest) = none := by
    intro word hword
    have hinitial : ∃ i ∈ initials, (word.1 : Text).points.head? = some (.char i) := by
      fin_cases hword
      · exact ⟨'n', by decide, rfl⟩
      · exact ⟨'t', by decide, rfl⟩
      · exact ⟨'f', by decide, rfl⟩
      · exact ⟨'N', by decide, rfl⟩
      · exact ⟨'I', by decide, rfl⟩
    rcases hinitial with ⟨i, hi, hfirst⟩
    exact dropWord?_cons hfirst (by rintro ⟨⟩; exact h hi) rest
  rw [readWord?, List.findSome?_eq_none_iff]
  intro word hword
  rw [hnone word hword]
  rfl

/-! # Numbers -/

def Ends (rest : List CodePoint) : Prop :=
  ∀ c, rest.head? = some (.char c) → c.isDigit = false ∧ c ≠ '.' ∧ c ≠ 'e' ∧ c ≠ 'E'

theorem leading_append {test : Char → Bool} {cs : List Char} {rest : List CodePoint}
    (h : ∀ c ∈ cs, test c = true) (hrest : ∀ c, rest.head? = some (.char c) → test c = false) :
    leading test (cs.map .char ++ rest) = cs := by
  induction cs with
  | nil =>
      rcases rest with _ | ⟨c | _, rest⟩
      · rfl
      · rw [List.map_nil, List.nil_append, leading, hrest c rfl, if_neg Bool.false_ne_true]
      · rfl
  | cons c cs ih =>
      rw [List.map_cons, List.cons_append, leading, if_pos (h c List.mem_cons_self),
        ih fun d hd => h d (List.mem_cons_of_mem _ hd)]

theorem drop_map_append (cs : List Char) (rest : List CodePoint) :
    (cs.map CodePoint.char ++ rest).drop cs.length = rest :=
  List.drop_left' (List.length_map _)

open NumberText Text

theorem filterMap_digitValue {cs : List Char} (h : AllDigits cs) :
    cs.filterMap digitValue? = cs.map digitOf := by
  rw [← List.filterMap_eq_map]
  exact List.filterMap_congr fun c hc => digitValue_of_isDigit (h c hc)

theorem isEmpty_fractionText (s : Spelling) : s.fractionText.isEmpty = s.fraction.isEmpty := by
  rw [Spelling.fractionText]
  cases s.fraction <;> rfl

theorem isEmpty_exponentText (s : Spelling) : s.exponentText.isEmpty = s.exponent.isNone := by
  rw [Spelling.exponentText]
  cases s.exponent <;> rfl

/-- What a spelling denotes in a document: a double if something shows it. -/
def documentOf (s : Spelling) (negative : Bool) : Document :=
  if s.fraction.isEmpty && s.exponent.isNone then
    .int (if negative then -(numberOf s.whole : Int) else numberOf s.whole)
  else .float (s.parts.toBinary negative)

theorem not_sign_of_isDigit {c : Char} (h : c.isDigit = true) :
    (c == '+' || c == '-') = false := by
  rw [Bool.or_eq_false_iff]
  constructor <;>
  · rw [beq_eq_false_iff_ne]
    rintro rfl
    cases h

theorem exists_chars_cons {s : Spelling} (hs : s.IsProper) :
    ∃ c cs, s.chars = c :: cs ∧ c.isDigit = true := by
  rcases List.exists_cons_of_ne_nil hs.whole_ne with ⟨c, cs, hwhole⟩
  exact ⟨c, cs ++ (s.fractionText ++ s.exponentText), by rw [Spelling.chars, hwhole]; rfl,
    hs.whole c (hwhole ▸ List.mem_cons_self)⟩

def BeginsNumber (c : Char) : Prop := c = '-' ∨ c.isDigit = true

theorem exists_signed_cons {s : Spelling} (hs : s.IsProper) (negative : Bool) :
    ∃ c cs, NumberLayout.signed negative s.chars = c :: cs ∧ BeginsNumber c := by
  rcases negative with _ | _
  · rcases exists_chars_cons hs with ⟨c, cs, hchars, hc⟩
    exact ⟨c, cs, hchars, .inr hc⟩
  · exact ⟨'-', s.chars, rfl, .inl rfl⟩

section Number

variable {s : Spelling} {rest : List CodePoint} (hrest : Ends rest)

include hrest

theorem head_exponentText {c : Char}
    (h : (s.exponentText.map CodePoint.char ++ rest).head? = some (.char c)) :
    c.isDigit = false ∧ c ≠ '.' := by
  rw [Spelling.exponentText] at h
  split at h
  · exact ⟨(hrest c h).1, (hrest c h).2.1⟩
  · cases h
    decide

theorem head_fractionText {c : Char}
    (h : (s.fractionText.map CodePoint.char ++
      (s.exponentText.map CodePoint.char ++ rest)).head? = some (.char c)) :
    c.isDigit = false := by
  rw [Spelling.fractionText] at h
  split at h
  · exact (head_exponentText hrest h).1
  · cases h
    decide

variable (hs : s.IsProper)

include hs

theorem exponentPart_exponentText :
    exponentPart (s.exponentText.map .char ++ rest) = s.exponentText := by
  have hdigit : ∀ c, rest.head? = some (.char c) → c.isDigit = false :=
    fun c hc => (hrest c hc).1
  rw [Spelling.exponentText]
  cases hexponent : s.exponent with
  | none =>
      rcases rest with _ | ⟨c | _, rest⟩
      · rfl
      · rcases hrest c rfl with ⟨_, _, hlower, hupper⟩
        simp [exponentPart, hlower, hupper]
      · rfl
  | some e =>
      rcases e with ⟨negative, digits⟩
      rcases hs.exponent _ hexponent with ⟨hdigits, hne⟩
      obtain ⟨mark, hmark⟩ : ∃ mark, (if negative then '-' else '+') = mark := ⟨_, rfl⟩
      have hsign : leading (fun s => s == '+' || s == '-')
          (.char mark :: (digits.map .char ++ rest)) = [mark] := by
        show leading _ ([mark].map .char ++ (digits.map .char ++ rest)) = [mark]
        refine leading_append ?_ ?_
        · cases negative <;> simp [← hmark]
        · rcases digits with _ | ⟨d, ds⟩
          · exact absurd rfl hne
          · rintro _ ⟨⟩
            exact not_sign_of_isDigit (hdigits d List.mem_cons_self)
      have hread : asciiDigits (digits.map .char ++ rest) = digits := leading_append hdigits hdigit
      have hsome : digits.isEmpty = false := by simpa using hne
      dsimp only
      rw [hmark, List.map_cons, List.map_cons, List.cons_append, List.cons_append, exponentPart,
        hsign]
      simp [hread, hsome]

theorem fractionPart_fractionText :
    fractionPart (s.fractionText.map .char ++ (s.exponentText.map .char ++ rest)) =
      s.fractionText := by
  have hnext := fun c => head_exponentText (s := s) (c := c) hrest
  rw [Spelling.fractionText]
  split
  · obtain ⟨next, hshown⟩ : ∃ next, s.exponentText.map CodePoint.char ++ rest = next := ⟨_, rfl⟩
    rw [hshown] at hnext ⊢
    rcases next with _ | ⟨c | _, next⟩
    · rfl
    · rw [List.map_nil, List.nil_append, fractionPart]
      rintro rest heq
      cases heq
      exact (hnext '.' rfl).2 rfl
    · rfl
  · rename_i hne
    have hread : asciiDigits (s.fraction.map .char ++ (s.exponentText.map .char ++ rest)) =
        s.fraction := leading_append hs.fraction fun c hc => (hnext c hc).1
    have hsome : s.fraction.isEmpty = false := List.isEmpty_eq_false_iff.mpr hne
    rw [List.map_cons, List.cons_append, fractionPart, hread, hsome, if_neg Bool.false_ne_true]

theorem readMagnitude_chars (negative : Bool) :
    readMagnitude negative (s.chars.map .char ++ rest) = some (documentOf s negative, rest) := by
  have hpoints : s.chars.map CodePoint.char ++ rest = s.whole.map .char ++
      (s.fractionText.map .char ++ (s.exponentText.map .char ++ rest)) := by
    rw [Spelling.chars, List.map_append, List.map_append, List.append_assoc, List.append_assoc]
  have hdigits : asciiDigits (s.chars.map CodePoint.char ++ rest) = s.whole :=
    hpoints ▸ leading_append hs.whole fun c => head_fractionText hrest
  unfold readMagnitude
  extract_lets whole after fraction exponent beyond n
  have hwhole : whole = s.whole := by
    simp only [whole]
    split
    · rename_i more hzero
      refine (hs.leading ?_).symm
      cases hfirst : s.whole with
      | nil => exact absurd hfirst hs.whole_ne
      | cons c cs =>
          rw [hpoints, hfirst] at hzero
          injection hzero with hc
          injection hc with hc
          rw [hc]
          rfl
    · exact hdigits
  have hafter : after =
      s.fractionText.map .char ++ (s.exponentText.map .char ++ rest) := by
    simp only [after, hwhole, hpoints, drop_map_append]
  have hfraction : fraction = s.fractionText :=
    (congrArg fractionPart hafter).trans (fractionPart_fractionText hrest hs)
  have hmore : after.drop fraction.length = s.exponentText.map .char ++ rest := by
    rw [hfraction, hafter, drop_map_append]
  have hexponent : exponent = s.exponentText :=
    (congrArg exponentPart hmore).trans (exponentPart_exponentText hrest hs)
  have hbeyond : beyond = rest := by
    simp only [beyond, hmore, hexponent, drop_map_append]
  have hn : n = numberOf s.whole := by
    simp only [n, hwhole, filterMap_digitValue hs.whole, numberOf]
  have hparts : parts? (s.whole ++ s.fractionText ++ s.exponentText) = some s.parts := by
    rw [List.append_assoc]
    exact Spelling.parts_chars hs
  rw [hwhole, hfraction, hexponent, hbeyond, hn, if_neg (by simpa using hs.whole_ne),
    isEmpty_fractionText, isEmpty_exponentText, hparts, documentOf]
  split <;> rfl

theorem readNumber_signed (negative : Bool) :
    readNumber ((NumberLayout.signed negative s.chars).map .char ++ rest) =
      some (documentOf s negative, rest) := by
  have hread := readMagnitude_chars hrest hs negative
  rcases exists_chars_cons hs with ⟨c, cs, hchars, hc⟩
  cases negative with
  | false =>
      rw [NumberLayout.signed, if_neg Bool.false_ne_true, readNumber]
      · exact hread
      · intro more heq
        rw [hchars] at heq
        cases heq
        cases hc
  | true =>
      have hword : dropWord? "Infinity" (s.chars.map .char ++ rest) = none := by
        rw [hchars]
        have hinitial : ("Infinity" : Text).points.head? = some (.char 'I') := rfl
        refine dropWord?_cons hinitial ?_ _
        rintro ⟨⟩
        cases hc
      rw [NumberLayout.signed, if_pos rfl, List.map_cons, List.cons_append, readNumber, hword]
      exact hread

end Number

end Json
end Stencil
