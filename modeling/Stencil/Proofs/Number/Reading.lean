import Mathlib
import Stencil.Number.Layout
import Stencil.Proofs.Number.Shortest

/-!
# Reading the texts of numbers

A text that a number is written with has whole digits, and may have digits after a point and an
exponent. Read back, it gives these parts; and whichever way the digits of a double are laid out,
the parts denote the same number. So the text of every double is read as this double.
-/

namespace Stencil

/-! # Digits -/

namespace Text

def digitOf (c : Char) : Nat := c.toNat - 48

theorem toNat_of_isDigit {c : Char} (h : c.isDigit = true) : 48 ≤ c.toNat ∧ c.toNat ≤ 57 := by
  simp only [Char.isDigit, Bool.and_eq_true, decide_eq_true_eq, ge_iff_le,
    UInt32.le_iff_toNat_le] at h
  exact h

theorem digitValue_of_isDigit {c : Char} (h : c.isDigit = true) :
    digitValue? c = some (digitOf c) := by
  rcases toNat_of_isDigit h with ⟨hlow, hhigh⟩
  have hsmall : c.toNat - 48 < 10 := by omega
  rw [digitValue?, digitRanges, List.find?_cons_of_pos (by simp [hlow, hhigh]), Option.map_some,
    digitOf, Nat.mod_eq_of_lt hsmall]

def AllDigits (cs : List Char) : Prop := ∀ c ∈ cs, c.isDigit = true

theorem AllDigits.append {cs ds : List Char} (h : AllDigits cs) (hds : AllDigits ds) :
    AllDigits (cs ++ ds) :=
  List.forall_mem_append.mpr ⟨h, hds⟩

theorem allDigits_decimal (n : Nat) : AllDigits (decimal n) :=
  fun _ hc => Nat.isDigit_of_mem_toDigits (by norm_num) (by norm_num) hc

theorem allDigits_zeros (n : Nat) : AllDigits (NumberLayout.zeros n) := by
  intro c hc
  rw [List.eq_of_mem_replicate hc]
  rfl

def numberOf (cs : List Char) : Nat := numeral (cs.map digitOf)

theorem numberOf_eq (cs : List Char) : numberOf cs = Nat.ofDigitChars 10 cs 0 := by
  rw [numberOf, numeral, List.foldl_map, Nat.ofDigitChars_eq_foldl]
  rfl

theorem numberOf_append (cs ds : List Char) :
    numberOf (cs ++ ds) = 10 ^ ds.length * numberOf cs + numberOf ds := by
  rw [numberOf_eq, numberOf_eq, numberOf_eq, Nat.ofDigitChars_append,
    Nat.ofDigitChars_eq_ofDigitChars_zero]

theorem numberOf_decimal (n : Nat) : numberOf (decimal n) = n := by
  rw [numberOf_eq]
  exact Nat.ofDigitChars_ten_toDigits

theorem numberOf_zeros (n : Nat) : numberOf (NumberLayout.zeros n) = 0 := by
  induction n with
  | zero => rfl
  | succ n ih =>
      have hzeros : NumberLayout.zeros (n + 1) = ['0'] ++ NumberLayout.zeros n := rfl
      rw [hzeros, numberOf_append, ih]
      rfl

theorem head_decimal {n : Nat} (h : n ≠ 0) : (decimal n).head? ≠ some '0' := by
  induction n using Nat.strong_induction_on with
  | _ n ih =>
      rw [decimal] at *
      rcases Nat.lt_or_ge n 10 with hsmall | hlarge
      · rw [Nat.toDigits_of_lt_base hsmall, List.head?_singleton]
        intro hzero
        exact h (Nat.digitChar_eq_zero.mp (Option.some.inj hzero))
      · rw [Nat.toDigits_of_base_le (by norm_num) hlarge, List.head?_append]
        have hless : n / 10 < n := Nat.div_lt_self (by omega) (by norm_num)
        have hhead := ih (n / 10) hless (by omega)
        rw [decimal] at hhead
        cases hfirst : (Nat.toDigits 10 (n / 10)).head? with
        | none => exact absurd (List.head?_eq_none_iff.mp hfirst) Nat.toDigits_ne_nil
        | some c =>
            rw [hfirst] at hhead
            exact hhead

end Text

open Text

/-! # Spellings -/

namespace NumberText

theorem digits_append {cs rest : List Char} (h : AllDigits cs)
    (hrest : ∀ c ∈ rest.head?, digitValue? c = none) :
    digits (cs ++ rest) = (cs.map digitOf, rest) := by
  induction cs with
  | nil =>
      cases rest with
      | nil => rfl
      | cons c rest =>
          rw [List.nil_append, digits, hrest c rfl]
          rfl
  | cons c cs ih =>
      rcases List.forall_mem_cons.mp h with ⟨hc, hcs⟩
      rw [List.cons_append, digits, digitValue_of_isDigit hc]
      dsimp only
      rw [ih hcs]
      rfl

/-- How a number without a sign is written down. -/
structure Spelling where
  whole : List Char
  /-- The digits after the point; there is no point without them. -/
  fraction : List Char
  /-- The digits of the exponent, and whether it is negative. -/
  exponent : Option (Bool × List Char)

namespace Spelling

def fractionText (s : Spelling) : List Char :=
  match s.fraction with
  | [] => []
  | fraction => '.' :: fraction

def exponentText (s : Spelling) : List Char :=
  match s.exponent with
  | none => []
  | some (negative, digits) => 'e' :: (if negative then '-' else '+') :: digits

def chars (s : Spelling) : List Char :=
  s.whole ++ (s.fractionText ++ s.exponentText)

def exponentValue (s : Spelling) : Int :=
  match s.exponent with
  | none => 0
  | some (negative, digits) => if negative then -(numberOf digits : Int) else numberOf digits

structure IsProper (s : Spelling) : Prop where
  whole : AllDigits s.whole
  whole_ne : s.whole ≠ []
  leading : s.whole.head? = some '0' → s.whole = ['0']
  fraction : AllDigits s.fraction
  exponent : ∀ e ∈ s.exponent, AllDigits e.2 ∧ e.2 ≠ []

def decimal (s : Spelling) : Decimal where
  coefficient := numberOf (s.whole ++ s.fraction)
  exponent := s.exponentValue - s.fraction.length

def parts (s : Spelling) : Parts where
  whole := s.whole.map digitOf
  fraction := s.fraction.map digitOf
  exponent := s.exponentValue

theorem toBinary_parts (s : Spelling) (negative : Bool) :
    s.parts.toBinary negative = s.decimal.toBinary negative := by
  rw [Parts.toBinary, parts, ← List.map_append, List.length_map]
  rfl

variable {s : Spelling}

theorem exponent_exponentText (h : s.IsProper) :
    exponent? s.exponentText = some s.exponentValue := by
  rcases s with ⟨whole, fraction, _ | ⟨negative, cs⟩⟩
  · rfl
  · rcases h.exponent (negative, cs) rfl with ⟨hdigits, hne⟩
    have hread : digits (cs ++ []) = (cs.map digitOf, []) := digits_append hdigits (by simp)
    rw [List.append_nil] at hread
    rcases cs with _ | ⟨c, cs⟩
    · exact absurd rfl hne
    · have hsign : sign ((if negative then '-' else '+') :: c :: cs) = (negative, c :: cs) := by
        cases negative <;> rfl
      simp only [exponentText, exponent?, hsign, hread, beq_self_eq_true, Bool.true_or, if_true,
        List.map_cons]
      rfl

theorem digitValue_mark : digitValue? '.' = none ∧ digitValue? 'e' = none := by
  constructor <;> rfl

theorem parts_chars (h : s.IsProper) : parts? s.chars = some s.parts := by
  have hexponent : ∀ c ∈ s.exponentText.head?, digitValue? c = none := by
    rw [exponentText]
    split
    · simp
    · simpa using digitValue_mark.2
  have hfraction : ∀ c ∈ (s.fractionText ++ s.exponentText).head?, digitValue? c = none := by
    rw [fractionText]
    split
    · simpa using hexponent
    · simpa using digitValue_mark.1
  have hwhole : (s.whole.map digitOf).isEmpty = false := by
    simpa using h.whole_ne
  have hread := exponent_exponentText h
  rw [parts?, chars, digits_append h.whole hfraction]
  dsimp only
  cases hdigits : s.fraction with
  | nil =>
      have hnone : s.fractionText = [] := by rw [fractionText, hdigits]
      have hend : s.exponentText = [] ∨ ∃ rest, s.exponentText = 'e' :: rest := by
        rw [exponentText]
        split
        · exact .inl rfl
        · exact .inr ⟨_, rfl⟩
      rw [hnone, List.nil_append, parts, hdigits]
      rcases hend with hend | ⟨rest, hend⟩
      · rw [hend] at hread ⊢
        rw [hwhole]
        show (exponent? []).map _ = _
        rw [hread]
        rfl
      · rw [hend] at hread ⊢
        rw [hwhole]
        show (exponent? ('e' :: rest)).map _ = _
        rw [hread]
        rfl
  | cons c cs =>
      have hsome : s.fractionText = '.' :: s.fraction := by rw [fractionText, hdigits]
      rw [hsome, List.cons_append]
      simp only [digits_append h.fraction hexponent, hwhole, Bool.false_and, hread]
      rfl

end Spelling

/-! # Layouts -/

/--
Whether a spelling lays out some digits with the point at a place, and shows that the number is
a double.
-/
structure Spelling.LaysOut (s : Spelling) (ds : List Char) (point : Int) : Prop where
  chars : s.chars = NumberLayout.data.place ds point
  proper : s.IsProper
  marked : s.fraction ≠ [] ∨ s.exponent ≠ none
  value : s.decimal.value = numberOf ds * (10 : ℚ) ^ (point - ds.length)

section Layouts

variable {ds : List Char} (hds : AllDigits ds) {point : Int}

include hds

theorem exists_laysOut_exponent (hne : ds ≠ [])
    (hplace : point < NumberLayout.data.lowest ∨ NumberLayout.data.highest < point) :
    ∃ s : Spelling, s.LaysOut ds point ∧ s.exponent ≠ none ∧ s.whole ++ s.fraction = ds ∧
      s.exponentValue = point - 1 := by
  rcases ds with _ | ⟨first, fraction⟩
  · exact absurd rfl hne
  rcases List.forall_mem_cons.mp hds with ⟨hfirst, hfraction⟩
  obtain ⟨e, he⟩ : ∃ e, point - 1 = e := ⟨_, rfl⟩
  obtain ⟨digits, hdigits⟩ : ∃ digits, NumberLayout.zeros (2 - (decimal e.natAbs).length) ++
      decimal e.natAbs = digits := ⟨_, rfl⟩
  have hvalue : numberOf digits = e.natAbs := by
    rw [← hdigits, numberOf_append, numberOf_zeros, numberOf_decimal, Nat.mul_zero, Nat.zero_add]
  have hexponent : NumberLayout.data.exponentText e =
      'e' :: (if decide (e < 0) then '-' else '+') :: digits := by
    rw [NumberLayout.exponentText, ← hdigits]
    simp only [decide_eq_true_eq]
    rfl
  have hsigned : (if decide (e < 0) = true then -(numberOf digits : Int) else numberOf digits) =
      e := by
    simp only [hvalue, decide_eq_true_eq]
    split <;> omega
  refine ⟨⟨[first], fraction, some (decide (e < 0), digits)⟩, ⟨?_, ⟨?_, ?_, ?_, ?_, ?_⟩, ?_, ?_⟩,
    by simp, rfl, hsigned.trans he.symm⟩
  · rw [NumberLayout.place, if_pos (by simpa using hplace)]
    cases fraction with
    | nil =>
        simp only [NumberLayout.withExponent, he, hexponent]
        rfl
    | cons second rest =>
        simp only [NumberLayout.withExponent, he, hexponent]
        rfl
  · exact List.forall_mem_singleton.mpr hfirst
  · simp
  · intro hzero
    exact congrArg (fun c => [c]) (Option.some.inj hzero)
  · exact hfraction
  · intro found hfound
    cases hfound
    refine ⟨hdigits ▸ (allDigits_zeros _).append (allDigits_decimal _), ?_⟩
    rw [← hdigits]
    simp [decimal]
  · exact .inr (by simp)
  · have hreach : e - fraction.length = point - ((fraction.length + 1 : Nat) : Int) := by omega
    rw [Decimal.value, Spelling.decimal, Spelling.exponentValue]
    dsimp only
    rw [hsigned, hreach]
    rfl

theorem exists_laysOut_before (hne : ds ≠ [])
    (hplace : ¬ (point < NumberLayout.data.lowest ∨ NumberLayout.data.highest < point))
    (hpoint : point ≤ 0) : ∃ s : Spelling, s.LaysOut ds point := by
  obtain ⟨fraction, hfraction⟩ : ∃ fraction,
      NumberLayout.zeros (-point).toNat ++ ds = fraction := ⟨_, rfl⟩
  have hfraction_ne : fraction ≠ [] := by
    rw [← hfraction]
    simp [hne]
  refine ⟨⟨['0'], fraction, none⟩, ?_, ⟨?_, ?_, ?_, ?_, ?_⟩, ?_, ?_⟩
  · rw [NumberLayout.place, if_neg (by simpa using hplace), if_pos hpoint, hfraction]
    rcases fraction with _ | ⟨c, cs⟩
    · exact absurd rfl hfraction_ne
    · exact congrArg (fun rest => '0' :: '.' :: c :: rest) (List.append_nil cs)
  · simp [AllDigits]
  · simp
  · simp
  · exact hfraction ▸ (allDigits_zeros _).append hds
  · simp
  · exact .inl hfraction_ne
  · have hlength : (0 : Int) - fraction.length = point - ds.length := by
      rw [← hfraction, List.length_append, NumberLayout.zeros, List.length_replicate]
      omega
    have hvalue : numberOf (['0'] ++ fraction) = numberOf ds := by
      rw [numberOf_append, ← hfraction, numberOf_append, numberOf_zeros]
      simp [numberOf, numeral, digitOf]
    rw [Decimal.value, Spelling.decimal, Spelling.exponentValue]
    dsimp only
    rw [hlength, hvalue]

theorem exists_laysOut_after (hne : ds ≠ []) (hlead : ds.head? ≠ some '0')
    (hplace : ¬ (point < NumberLayout.data.lowest ∨ NumberLayout.data.highest < point))
    (hpoint : (ds.length : Int) ≤ point) : ∃ s : Spelling, s.LaysOut ds point := by
  have hlength : 0 < ds.length := List.length_pos_iff.mpr hne
  obtain ⟨more, hmore⟩ : ∃ more, point.toNat - ds.length = more := ⟨_, rfl⟩
  have hwhole : (ds ++ NumberLayout.zeros more).head? = ds.head? := by
    rcases ds with _ | ⟨c, cs⟩
    · exact absurd rfl hne
    · rfl
  refine ⟨⟨ds ++ NumberLayout.zeros more, ['0'], none⟩, ?_, ⟨?_, ?_, ?_, ?_, ?_⟩, ?_, ?_⟩
  · rw [NumberLayout.place, if_neg (by simpa using hplace), if_neg (by omega), if_pos hpoint,
      hmore]
    rfl
  · exact hds.append (allDigits_zeros more)
  · simp [hne]
  · intro hzero
    exact absurd (hwhole ▸ hzero) hlead
  · simp [AllDigits]
  · simp
  · exact .inl (by simp)
  · have hvalue : numberOf (ds ++ NumberLayout.zeros more ++ ['0']) =
        10 * (10 ^ more * numberOf ds) := by
      rw [numberOf_append, numberOf_append, numberOf_zeros, NumberLayout.zeros,
        List.length_replicate]
      rfl
    have hreach : point - ds.length = more := by omega
    rw [Decimal.value, Spelling.decimal, Spelling.exponentValue]
    dsimp only
    rw [hvalue, hreach, zpow_natCast]
    push_cast
    rw [show (0 : ℤ) - ((['0'] : List Char).length : ℤ) = -1 from rfl, zpow_neg_one]
    ring

theorem exists_laysOut_inside (hlead : ds.head? ≠ some '0')
    (hplace : ¬ (point < NumberLayout.data.lowest ∨ NumberLayout.data.highest < point))
    (hpos : 0 < point) (hpoint : point < (ds.length : Int)) :
    ∃ s : Spelling, s.LaysOut ds point := by
  obtain ⟨n, hn⟩ : ∃ n, point.toNat = n + 1 := ⟨point.toNat - 1, by omega⟩
  rcases ds with _ | ⟨first, rest⟩
  · simp at hpoint
    omega
  rw [List.length_cons] at hpoint
  have hfraction_ne : rest.drop n ≠ [] := by
    rw [ne_eq, List.drop_eq_nil_iff]
    omega
  rcases List.forall_mem_cons.mp hds with ⟨hfirst, hrest⟩
  refine ⟨⟨first :: rest.take n, rest.drop n, none⟩, ?_, ⟨?_, ?_, ?_, ?_, ?_⟩, ?_, ?_⟩
  · rw [NumberLayout.place, if_neg (by simpa using hplace), if_neg (by omega),
      if_neg (by rw [List.length_cons]; omega), hn, List.take_succ_cons, List.drop_succ_cons]
    cases hdrop : rest.drop n with
    | nil => exact absurd hdrop hfraction_ne
    | cons c cs =>
        exact congrArg (fun more => first :: (rest.take n ++ '.' :: c :: more)) (List.append_nil cs)
  · exact List.forall_mem_cons.mpr ⟨hfirst, fun c hc => hrest c (List.mem_of_mem_take hc)⟩
  · simp
  · intro hzero
    exact absurd hzero hlead
  · exact fun c hc => hrest c (List.mem_of_mem_drop hc)
  · simp
  · exact .inl hfraction_ne
  · have hreach : (0 : Int) - (rest.drop n).length = point - (first :: rest).length := by
      rw [List.length_drop, List.length_cons]
      omega
    rw [Decimal.value, Spelling.decimal, Spelling.exponentValue]
    dsimp only
    rw [hreach, List.cons_append, List.take_append_drop]

theorem exists_laysOut (hne : ds ≠ []) (hlead : ds.head? ≠ some '0') (point : Int) :
    ∃ s : Spelling, s.LaysOut ds point := by
  by_cases hplace : point < NumberLayout.data.lowest ∨ NumberLayout.data.highest < point
  · rcases exists_laysOut_exponent hds hne hplace with ⟨s, hs, -⟩
    exact ⟨s, hs⟩
  · rcases le_or_gt point 0 with hbefore | hpos
    · exact exists_laysOut_before hds hne hplace hbefore
    · rcases lt_or_ge point ds.length with hinside | hafter
      · exact exists_laysOut_inside hds hlead hplace hpos hinside
      · exact exists_laysOut_after hds hne hlead hplace hafter

end Layouts

/-! # Doubles -/

/-- Whether a spelling is the text of a double but for the sign, and is read as this double. -/
structure Spelling.Spells (s : Spelling) (rank : Fin finiteRanks) : Prop where
  chars : ∀ negative, NumberLayout.data.finite negative rank = NumberLayout.signed negative s.chars
  proper : s.IsProper
  marked : s.fraction ≠ [] ∨ s.exponent ≠ none
  reads : ∀ negative, s.parts.toBinary negative = .finite negative rank

theorem exists_spells_zero (h : 0 < finiteRanks) : ∃ s : Spelling, s.Spells ⟨0, h⟩ :=
  ⟨⟨['0'], ['0'], none⟩, fun _ => rfl, ⟨by simp [AllDigits], by simp, fun _ => rfl,
    by simp [AllDigits], by simp⟩, .inl (by simp), fun _ => rfl⟩

theorem exists_spells (rank : Fin finiteRanks) : ∃ s : Spelling, s.Spells rank := by
  rcases rank with ⟨rank, hfinite⟩
  rcases Nat.eq_zero_or_pos rank with rfl | hrank
  · exact exists_spells_zero hfinite
  · have hhas := Binary64.has_shortest hrank
    obtain ⟨d, hd⟩ : ∃ d, Binary64.shortest rank = d := ⟨_, rfl⟩
    rw [hd] at hhas
    have hcoefficient := Decimal.coefficient_ne_zero (Binary64.value_pos_of_has hrank hhas)
    rcases exists_laysOut (allDigits_decimal d.coefficient) Nat.toDigits_ne_nil
      (head_decimal hcoefficient) d.pointAt with ⟨s, hs⟩
    refine ⟨s, ?_, hs.proper, hs.marked, ?_⟩
    · intro negative
      rw [NumberLayout.finite, if_neg (by simpa using Nat.ne_of_gt hrank), hd, hs.chars]
      rfl
    · intro negative
      have hvalue : s.decimal.value = d.value := by
        have hexponent : d.pointAt - (decimal d.coefficient).length = d.exponent :=
          add_sub_cancel_left _ _
        rw [hs.value, numberOf_decimal, hexponent]
        rfl
      rw [Spelling.toBinary_parts]
      exact Binary64.toBinary_of_has hrank hfinite (hvalue ▸ hhas) negative

end NumberText

end Stencil
