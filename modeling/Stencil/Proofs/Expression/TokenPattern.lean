import Stencil.Proofs.Expression.Spelling
import Stencil.Proofs.Text.Regex

/-!
# The pattern of tokens

What tokens look like can be said with patterns, one for each kind, of which the first that matches
is taken. The scanner takes what they take: each of its lengths is the length of the match that is
found, and it finds nothing where none of them matches. So what stands at the start of a text does
not depend on what comes behind it.
-/

namespace Stencil
namespace Regex

/-! # Patterns of the kinds of tokens -/

def blanks : Regex := plus (one Text.isBlank)

def digits : Regex := plus (one Text.isDigit)

def fraction : Regex := both (char '.') digits

def mantissa : Regex := either (both digits fraction) (either fraction digits)

def sign : Regex := one fun c => c == '+' || c == '-'

def exponent : Regex :=
  both (one fun c => c == 'e' || c == 'E') (both (optional sign) digits)

def number : Regex := both mantissa (optional exponent)

def quotedItem (mark : Char) : Regex :=
  either (one fun c => c != mark && c != '\\') (both (char '\\') (one fun _ => true))

def quotedTail (mark : Char) : Regex := both (many (quotedItem mark)) (char mark)

def quoted : Regex :=
  either (both (char '"') (quotedTail '"')) (both (char '\'') (quotedTail '\''))

def name : Regex := both (one isNameStart) (many (one isNameChar))

def operator : Regex := anyWord longOperators (one shortOperators.contains)

/-- White space and the kinds of tokens, the preferred ones first. -/
def tokenPattern : List (Option TokenKind × Regex) :=
  [ (none, blanks), (some .number, number), (some .string, quoted), (some .name, name),
    (some .operator, operator) ]

/-! # Lengths of matches -/

/-- Whether a length is that of the match that is found, zero if there is none. -/
structure Measures (r : Regex) (length : List Char → Nat) : Prop where
  match?_eq : ∀ cs, r.match? cs = if length cs = 0 then none else some (cs.drop (length cs))
  le_length : ∀ cs, length cs ≤ cs.length

theorem Measures.length_take {r : Regex} {length : List Char → Nat} (h : r.Measures length)
    (cs : List Char) : length (cs.take (length cs)) = length cs := by
  have hfits := h.le_length cs
  have hcut := h.le_length (cs.take (length cs))
  rw [List.length_take_of_le hfits] at hcut
  by_cases hzero : length cs = 0
  · omega
  · have hwhole := h.match?_eq cs
    rw [if_neg hzero] at hwhole
    have hfront : r.match? (cs.take (length cs) ++ cs.drop (length cs)) =
        some ([] ++ cs.drop (length cs)) := by
      rw [List.take_append_drop, hwhole, List.nil_append]
    have hfound := h.match?_eq (cs.take (length cs))
    rw [match?_of_append hfront] at hfound
    split at hfound
    · cases hfound
    · have hrest := List.drop_eq_nil_iff.mp (Option.some.inj hfound).symm
      rw [List.length_take_of_le hfits] at hrest
      exact Nat.le_antisymm hcut hrest

theorem drop_length_takeWhile (test : Char → Bool) (cs : List Char) :
    cs.drop (cs.takeWhile test).length = cs.dropWhile test := by
  induction cs with
  | nil => rfl
  | cons c rest ih =>
      cases hc : test c with
      | true => simp [hc, ih]
      | false => simp [hc]

theorem rests_both_plus_one {test : Char → Bool} {s : Regex}
    (hs : ∀ c rest, test c = true → s.rests (c :: rest) = []) (cs : List Char) :
    (both (plus (one test)) s).rests cs =
      if (cs.takeWhile test).length = 0 then []
      else s.rests (cs.drop (cs.takeWhile test).length) := by
  rw [drop_length_takeWhile, plus, rests_both_assoc]
  cases cs with
  | nil => rfl
  | cons c rest =>
      rw [rests_both_one_cons, rests_both_many_one hs]
      cases hc : test c <;> simp [hc]

theorem measures_plus_one (test : Char → Bool) :
    (plus (one test)).Measures fun cs => (cs.takeWhile test).length where
  match?_eq cs := by
    rw [drop_length_takeWhile, plus]
    cases cs with
    | nil => rfl
    | cons c rest =>
        rw [match?_both_one_cons, match?_many_one]
        cases hc : test c <;> simp [hc]
  le_length cs := (List.takeWhile_prefix test).length_le

theorem measures_blanks : blanks.Measures fun cs => (cs.takeWhile Text.isBlank).length :=
  measures_plus_one Text.isBlank

theorem measures_digits : digits.Measures digitLength :=
  measures_plus_one Text.isDigit

/-! # Numbers -/

theorem rests_fraction_of_ne {c : Char} (hc : c ≠ '.') (rest : List Char) :
    fraction.rests (c :: rest) = [] := by
  rw [fraction, char, rests_both_one_cons, if_neg (by simpa using hc)]

theorem measures_fraction : fraction.Measures fractionLength where
  match?_eq cs := by
    unfold fractionLength
    split
    · rename_i rest
      rw [fraction, char, match?_both_one_cons, if_pos (by decide), measures_digits.match?_eq]
      by_cases hrest : digitLength rest = 0
      · simp [hrest]
      · simp [hrest, Nat.add_comm 1]
    · rename_i hpoint
      cases cs with
      | nil => rfl
      | cons c rest =>
          rw [match?, rests_fraction_of_ne]
          · rfl
          · rintro rfl
            exact hpoint rest rfl
  le_length cs := by
    unfold fractionLength
    split
    · rename_i rest
      have hrest := measures_digits.le_length rest
      rw [List.length_cons]
      split <;> omega
    · exact Nat.zero_le _

theorem ne_point_of_isDigit {c : Char} (hc : Text.isDigit c = true) : c ≠ '.' := by
  rintro rfl
  exact absurd hc (by decide)

theorem match?_fraction_of_digits {cs : List Char} (h : digitLength cs ≠ 0) :
    fraction.match? cs = none := by
  cases cs with
  | nil => rfl
  | cons c rest =>
      have hc : Text.isDigit c = true := by
        by_contra hc
        simp [digitLength, hc] at h
      rw [match?, rests_fraction_of_ne (ne_point_of_isDigit hc)]
      rfl

theorem measures_mantissa :
    mantissa.Measures fun cs =>
      digitLength cs + fractionLength (cs.drop (digitLength cs)) where
  match?_eq cs := by
    have hdecimal : (both digits fraction).match? cs =
        if digitLength cs = 0 then none else fraction.match? (cs.drop (digitLength cs)) := by
      have hpoint : ∀ c rest, Text.isDigit c = true → fraction.rests (c :: rest) = [] :=
        fun c rest hc => rests_fraction_of_ne (ne_point_of_isDigit hc) rest
      rw [match?, digits, rests_both_plus_one hpoint, digitLength]
      split <;> rfl
    rw [mantissa, match?_either, match?_either, hdecimal, measures_fraction.match?_eq (cs.drop _),
      measures_digits.match?_eq]
    by_cases hwhole : digitLength cs = 0
    · rw [measures_fraction.match?_eq cs]
      simp [hwhole]
    · rw [match?_fraction_of_digits hwhole]
      by_cases hfraction : fractionLength (cs.drop (digitLength cs)) = 0
      · simp [hwhole, hfraction]
      · simp [hwhole, hfraction]
  le_length cs := by
    have hwhole := measures_digits.le_length cs
    have hfraction := measures_fraction.le_length (cs.drop (digitLength cs))
    rw [List.length_drop] at hfraction
    omega

def signLength : List Char → Nat
  | c :: _ => if c == '+' || c == '-' then 1 else 0
  | [] => 0

theorem exponentLength_cons (c : Char) (rest : List Char) :
    exponentLength (c :: rest) =
      if c == 'e' || c == 'E' then
        if digitLength (rest.drop (signLength rest)) = 0 then 0
        else 1 + signLength rest + digitLength (rest.drop (signLength rest))
      else 0 := by
  rw [exponentLength.eq_def]
  simp only [beq_iff_eq]
  cases rest <;> rfl

/-- A sign in front of digits is taken. Without digits behind it nothing matches, taken or not. -/
theorem match?_signed (rest : List Char) :
    (both (optional sign) digits).match? rest = digits.match? (rest.drop (signLength rest)) := by
  cases rest with
  | nil => rfl
  | cons s others =>
      rw [signLength]
      cases hs : s == '+' || s == '-' with
      | false => simp [match?, optional, sign, rests, hs]
      | true =>
          have hnone : digits.rests (s :: others) = [] := by
            rw [digits, plus, rests_both_one_cons, if_neg]
            simp only [Bool.or_eq_true, beq_iff_eq] at hs
            rcases hs with rfl | rfl <;> decide
          simp [match?, optional, sign, rests, hs, hnone]

theorem measures_exponent : exponent.Measures exponentLength where
  match?_eq cs := by
    cases cs with
    | nil => rfl
    | cons c rest =>
        rw [exponent, match?_both_one_cons, match?_signed, measures_digits.match?_eq,
          exponentLength_cons]
        generalize signLength rest = n
        split
        · by_cases hdigits : digitLength (rest.drop n) = 0
          · simp [hdigits]
          · have hsum : 1 + n + digitLength (rest.drop n) = n + digitLength (rest.drop n) + 1 := by
              omega
            simp [hdigits, hsum]
        · rfl
  le_length cs := by
    cases cs with
    | nil => exact Nat.zero_le _
    | cons c rest =>
        have hdigits := measures_digits.le_length (rest.drop (signLength rest))
        rw [List.length_drop] at hdigits
        rw [exponentLength_cons, List.length_cons]
        split
        · split <;> omega
        · exact Nat.zero_le _

theorem Measures.both_optional {r s : Regex} {m n : List Char → Nat} (hr : r.Measures m)
    (hs : s.Measures n) :
    (both r (optional s)).Measures fun cs =>
      if m cs = 0 then 0 else m cs + n (cs.drop (m cs)) where
  match?_eq cs := by
    rw [match?_both_optional, hr.match?_eq]
    by_cases hm : m cs = 0
    · simp [hm]
    · rw [if_neg hm, Option.map_some, hs.match?_eq]
      by_cases hn : n (cs.drop (m cs)) = 0
      · simp [hm, hn]
      · simp [hm, hn]
  le_length cs := by
    have hfirst := hr.le_length cs
    have hsecond := hs.le_length (cs.drop (m cs))
    rw [List.length_drop] at hsecond
    split <;> omega

theorem measures_number : number.Measures numberLength := by
  have hnumber := measures_mantissa.both_optional measures_exponent
  have hlength : numberLength = fun cs =>
      if digitLength cs + fractionLength (cs.drop (digitLength cs)) = 0 then 0
      else digitLength cs + fractionLength (cs.drop (digitLength cs)) +
        exponentLength (cs.drop (digitLength cs + fractionLength (cs.drop (digitLength cs)))) := by
    funext cs
    simp only [numberLength, beq_iff_eq]
  rw [hlength]
  exact hnumber

/-! # String literals -/

theorem rests_quotedItem_slash (mark : Char) (rest : List Char) :
    (quotedItem mark).rests ('\\' :: rest) =
      match rest with
      | _ :: after => [after]
      | [] => [] := by
  rw [quotedItem, rests, char, rests_both_one_cons]
  cases rest <;> simp [rests]

theorem rests_quotedItem_cons {mark c : Char} (hslash : c ≠ '\\') (rest : List Char) :
    (quotedItem mark).rests (c :: rest) = if c == mark then [] else [rest] := by
  rw [quotedItem, rests, char, rests_both_one_cons, if_neg (by simpa using hslash)]
  by_cases hmark : c = mark
  · simp [rests, hmark]
  · simp [rests, hmark, hslash]

theorem rests_quotedTail {mark : Char} (hmark : mark ≠ '\\') (cs : List Char) :
    (quotedTail mark).rests cs = ((bodyLength? mark cs).map fun n => cs.drop (n + 1)).toList := by
  have hchar : ∀ c rest, (char mark).rests (c :: rest) = if c == mark then [rest] else [] :=
    fun _ _ => rfl
  rw [quotedTail]
  induction cs using bodyLength?.induct mark with
  | case1 =>
      rw [rests_both_many]
      rfl
  | case2 c rest hquote =>
      have hslash : c ≠ '\\' := by
        rw [beq_iff_eq] at hquote
        exact hquote ▸ hmark
      rw [rests_both_many, rests_quotedItem_cons hslash, hchar, if_pos hquote, if_pos hquote,
        bodyLength?.eq_def]
      simp [hquote]
  | case3 c hquote hslash next after ih =>
      rw [beq_iff_eq] at hslash
      subst hslash
      have hshorter : after.length < ('\\' :: next :: after).length := by
        rw [List.length_cons, List.length_cons]
        omega
      rw [rests_both_many, rests_quotedItem_slash, hchar, if_neg hquote, bodyLength?, if_neg hquote,
        if_pos (by decide)]
      dsimp only
      rw [List.flatMap_cons, if_pos hshorter, ih]
      cases bodyLength? mark after <;> simp
  | case4 c hquote hslash =>
      rw [beq_iff_eq] at hslash
      subst hslash
      rw [rests_both_many, rests_quotedItem_slash, hchar, if_neg hquote, bodyLength?, if_neg hquote,
        if_pos (by decide)]
      rfl
  | case5 c rest hquote hslash ih =>
      rw [rests_both_many, rests_quotedItem_cons (by simpa using hslash), hchar, if_neg hquote,
        if_neg hquote, bodyLength?.eq_def]
      cases hbody : bodyLength? mark rest <;> simp [ih, hbody, hquote, hslash]

theorem rests_quoted_cons (c : Char) (rest : List Char) :
    quoted.rests (c :: rest) =
      if isQuote c then ((bodyLength? c rest).map fun n => rest.drop (n + 1)).toList else [] := by
  rw [quoted, rests, char, char, rests_both_one_cons, rests_both_one_cons,
    rests_quotedTail (by decide), rests_quotedTail (by decide)]
  by_cases hdouble : c = '"'
  · subst hdouble
    simp [isQuote]
  · by_cases hsingle : c = '\''
    · subst hsingle
      simp [isQuote]
    · simp [isQuote, hdouble, hsingle]

theorem stringLength_cons (c : Char) (rest : List Char) :
    stringLength (c :: rest) =
      if isQuote c then ((bodyLength? c rest).map (· + 2)).getD 0 else 0 := by
  rw [stringLength, isQuote]
  cases bodyLength? c rest <;> rfl

theorem measures_quoted : quoted.Measures stringLength where
  match?_eq cs := by
    cases cs with
    | nil => rfl
    | cons c rest =>
        rw [match?, rests_quoted_cons, stringLength_cons]
        cases isQuote c with
        | false => rfl
        | true => cases bodyLength? c rest <;> rfl
  le_length cs := by
    cases cs with
    | nil => exact Nat.zero_le _
    | cons c rest =>
        rw [stringLength_cons]
        split
        · cases hbody : bodyLength? c rest with
          | none => exact Nat.zero_le _
          | some n =>
              rcases Grammar.exists_of_bodyLength? hbody with ⟨body, after, rfl, -, rfl⟩
              simp
        · exact Nat.zero_le _

/-! # Names and operators -/

theorem measures_name : name.Measures nameLength where
  match?_eq cs := by
    cases cs with
    | nil => rfl
    | cons c rest =>
        rw [name, match?_both_one_cons, match?_many_one, nameLength]
        cases isNameStart c with
        | false => rfl
        | true => simp [Nat.add_comm 1, drop_length_takeWhile]
  le_length cs := by
    cases cs with
    | nil => exact Nat.zero_le _
    | cons c rest =>
        have hrest : (rest.takeWhile isNameChar).length ≤ rest.length :=
          (List.takeWhile_prefix isNameChar).length_le
        rw [nameLength, List.length_cons]
        split <;> omega

theorem operatorLength_of_long {cs op : List Char}
    (h : longOperators.find? (·.isPrefixOf cs) = some op) : operatorLength cs = op.length := by
  rw [operatorLength.eq_def, h]

theorem operatorLength_of_short {c : Char} {rest : List Char}
    (h : longOperators.find? (·.isPrefixOf (c :: rest)) = none) :
    operatorLength (c :: rest) = if shortOperators.contains c then 1 else 0 := by
  rw [operatorLength.eq_def, h]

theorem measures_operator : operator.Measures operatorLength where
  match?_eq cs := by
    rw [operator, match?_anyWord]
    cases hfound : longOperators.find? (·.isPrefixOf cs) with
    | some op =>
        have hlong : ∀ op ∈ longOperators, op.length ≠ 0 := by decide
        rw [operatorLength_of_long hfound, if_neg (hlong op (List.mem_of_find?_eq_some hfound))]
    | none =>
        cases cs with
        | nil => rfl
        | cons c rest =>
            rw [operatorLength_of_short hfound]
            dsimp only
            rw [match?, rests]
            by_cases hshort : shortOperators.contains c = true
            · rw [if_pos hshort, if_pos hshort]
              rfl
            · rw [if_neg hshort, if_neg hshort]
              rfl
  le_length cs := by
    cases hfound : longOperators.find? (·.isPrefixOf cs) with
    | some op =>
        have hprefix := List.find?_some hfound
        rw [List.isPrefixOf_iff_prefix] at hprefix
        rw [operatorLength_of_long hfound]
        exact hprefix.length_le
    | none =>
        cases cs with
        | nil => exact Nat.zero_le _
        | cons c rest =>
            rw [operatorLength_of_short hfound, List.length_cons]
            split <;> omega

/-! # The scanner -/

theorem Measures.or_map {r : Regex} {length : List Char → Nat} (h : r.Measures length) (kind : κ)
    (other : Option (κ × Nat)) (cs : List Char) :
    ((r.match? cs).map fun rest => (kind, rest)).or
        (other.map fun found => (found.1, cs.drop found.2)) =
      (if length cs != 0 then some (kind, length cs) else other).map fun found =>
        (found.1, cs.drop found.2) := by
  rw [h.match?_eq]
  by_cases hlength : length cs = 0
  · simp [hlength]
  · simp [hlength]

theorem firstOf?_tokenPattern (cs : List Char) :
    firstOf? tokenPattern cs = (lexeme? cs).map fun found => (found.1, cs.drop found.2) := by
  have hnone : firstOf? [] cs =
      (none : Option (Option TokenKind × Nat)).map fun found => (found.1, cs.drop found.2) :=
    rfl
  rw [tokenPattern, firstOf?_cons, firstOf?_cons, firstOf?_cons, firstOf?_cons, firstOf?_cons,
    hnone, measures_operator.or_map, measures_name.or_map, measures_quoted.or_map,
    measures_number.or_map, measures_blanks.or_map]
  rfl

end Regex

theorem lexeme?_le_length {cs : List Char} {kind : Option TokenKind} {n : Nat}
    (h : lexeme? cs = some (kind, n)) : n ≤ cs.length := by
  unfold lexeme? at h
  dsimp only at h
  repeat' split at h
  all_goals cases h
  · exact Regex.measures_blanks.le_length cs
  · exact Regex.measures_number.le_length cs
  · exact Regex.measures_quoted.le_length cs
  · exact Regex.measures_name.le_length cs
  · exact Regex.measures_operator.le_length cs

theorem lexeme?_take {cs : List Char} {kind : Option TokenKind} {n m : Nat}
    (h : lexeme? cs = some (kind, n)) (hm : n ≤ m) :
    lexeme? (cs.take m) = some (kind, n) := by
  have hfront : n ≤ (cs.take m).length := by
    have hle := lexeme?_le_length h
    rw [List.length_take]
    omega
  have hfound := Regex.firstOf?_tokenPattern cs
  rw [h, Option.map_some, ← List.take_append_drop m cs, List.drop_append_of_le_length hfront]
    at hfound
  have hcut := Regex.firstOf?_of_append hfound
  rw [Regex.firstOf?_tokenPattern] at hcut
  rcases Option.map_eq_some_iff.mp hcut with ⟨⟨other, k⟩, hlexeme, hsame⟩
  rw [Prod.mk.injEq] at hsame
  rcases hsame with ⟨rfl, hdrop⟩
  have hk := lexeme?_le_length hlexeme
  have hlengths := congrArg List.length hdrop
  rw [List.length_drop, List.length_drop] at hlengths
  have hsame : k = n := by omega
  rw [hlexeme, hsame]

theorem lexeme?_take_eq_none {cs : List Char} (h : lexeme? cs = none) (m : Nat) :
    lexeme? (cs.take m) = none := by
  have hnone := Regex.firstOf?_tokenPattern cs
  rw [h, ← List.take_append_drop m cs] at hnone
  have hcut := Regex.firstOf?_append_eq_none hnone
  rw [Regex.firstOf?_tokenPattern] at hcut
  exact Option.map_eq_none_iff.mp hcut

end Stencil
