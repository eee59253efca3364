import Mathlib
import Stencil.Proofs.Number.Digits
import Stencil.Proofs.Number.Reading

/-!
# Numbers in the output of a view

One rule says how the digits of a number are written, by where the point stands. The text of a
double is found in three ways: whole numbers below `10 ^ 21` are written with all their digits,
other numbers as in data, and numbers that have an exponent there are laid out again. Together they
follow the rule for the shortest digits, but for whole numbers from `2 ^ 53` on: there the shortest
digits, with zeros behind them, may stand for another number than the double, which is the one that
is written.
-/

namespace Stencil

open Text

/-! # The rule -/

namespace NumberText

def powerText (e : Int) : List Char :=
  'e' :: (if e < 0 then '-' else '+') :: decimal e.natAbs

/-- How the digits of a number are written, with the point behind the `n`-th. -/
inductive Written (ds : List Char) (n : Int) : List Char → Prop where
  | whole (hle : ds.length ≤ n) (hn : n ≤ 21) :
      Written ds n (ds ++ List.replicate (n - ds.length).toNat '0')
  | broken (hpos : 0 < n) (hlt : n < ds.length) (hn : n ≤ 21) :
      Written ds n (ds.take n.toNat ++ '.' :: ds.drop n.toNat)
  | below (hlow : -6 < n) (hn : n ≤ 0) :
      Written ds n ('0' :: '.' :: (List.replicate (-n).toNat '0' ++ ds))
  | digit {c : Char} (hn : n ≤ -6 ∨ 21 < n) (hds : ds = [c]) :
      Written ds n (c :: powerText (n - 1))
  | digits {c c' : Char} {cs : List Char} (hn : n ≤ -6 ∨ 21 < n) (hds : ds = c :: c' :: cs) :
      Written ds n (c :: '.' :: c' :: (cs ++ powerText (n - 1)))

end NumberText

namespace NumberLayout

open NumberText

variable {ds : List Char} {n : Int}

theorem exponentText_view (e : Int) : view.exponentText e = powerText e := by
  have hlength : 1 ≤ (decimal e.natAbs).length := Binary64.digitCount_pos _
  have hnone : view.exponentWidth - (decimal e.natAbs).length = 0 := Nat.sub_eq_zero_of_le hlength
  rw [exponentText, hnone]
  rfl

theorem outside_view_iff :
    (decide (n < view.lowest) || decide (view.highest < n)) = true ↔ n ≤ -6 ∨ 21 < n := by
  have hlowest : view.lowest = -5 := rfl
  have hhighest : view.highest = 21 := rfl
  rw [hlowest, hhighest, Bool.or_eq_true, decide_eq_true_iff, decide_eq_true_iff]
  omega

theorem written_place (hne : ds ≠ []) : Written ds n (view.place ds n) := by
  have hlength : 0 < ds.length := List.length_pos_iff.mpr hne
  rw [place]
  split_ifs with hpower hbelow hwhole
  all_goals rw [outside_view_iff] at hpower
  · rcases ds with _ | ⟨c, _ | ⟨c', cs⟩⟩
    · exact absurd rfl hne
    · change Written [c] n ([c] ++ view.exponentText (n - 1))
      rw [exponentText_view]
      exact .digit hpower rfl
    · change Written (c :: c' :: cs) n (c :: '.' :: c' :: cs ++ view.exponentText (n - 1))
      rw [exponentText_view]
      exact .digits hpower rfl
  · exact .below (by omega) hbelow
  · have hzeros : zeros (n.toNat - ds.length) ++ view.wholeMark =
        List.replicate (n - ds.length).toNat '0' := by
      rw [show (n - ds.length).toNat = n.toNat - ds.length by omega]
      exact List.append_nil _
    rw [List.append_assoc, hzeros]
    exact .whole hwhole (by omega)
  · exact .broken (by omega) (by omega) (by omega)

/-! # Texts with an exponent -/

theorem respelled_eq_self {text : List Char} (h : 'e' ∉ text) : respelled text = text := by
  have hspan : text.span (· != 'e') = (text, []) := by
    have hall : ∀ c ∈ text, (c != 'e') = true := by
      intro c hc
      rw [bne_iff_ne]
      rintro rfl
      exact h hc
    rw [List.span_eq_takeWhile_dropWhile, List.takeWhile_eq_self_iff.mpr hall,
      List.dropWhile_eq_nil_iff.mpr hall]
  rw [respelled, hspan]
  rfl

theorem span_of_parts {mantissa exponent : List Char} (h : 'e' ∉ mantissa) :
    (mantissa ++ 'e' :: exponent).span (· != 'e') = (mantissa, 'e' :: exponent) := by
  have hall : ∀ c ∈ mantissa, (c != 'e') = true := by
    intro c hc
    rw [bne_iff_ne]
    rintro rfl
    exact h hc
  rw [List.span_eq_takeWhile_dropWhile, List.takeWhile_append_of_pos hall,
    List.dropWhile_append_of_pos hall]
  simp

theorem filter_point {cs : List Char} (h : AllDigits cs) : cs.filter (· != '.') = cs := by
  refine List.filter_eq_self.mpr fun c hc => ?_
  rw [bne_iff_ne]
  rintro rfl
  cases h _ hc

theorem not_mem_e {cs : List Char} (h : AllDigits cs) : 'e' ∉ cs := by
  intro hmem
  cases h _ hmem

theorem sign_of_allDigits {cs : List Char} (h : AllDigits cs) (hne : cs ≠ []) (rest : List Char) :
    sign (cs ++ rest) = (false, cs ++ rest) := by
  rcases cs with _ | ⟨c, cs⟩
  · exact absurd rfl hne
  · have hdigit := h c List.mem_cons_self
    rw [List.cons_append]
    unfold sign
    split
    next heq =>
        cases heq
        cases hdigit
    next heq =>
        cases heq
        cases hdigit
    · rfl

theorem respelled_signed {s : Spelling} (hs : s.IsProper) (hpower : s.exponent ≠ none)
    (negative : Bool) :
    respelled (signed negative s.chars) =
      signed negative (view.place (s.whole ++ s.fraction) (s.exponentValue + 1)) := by
  have hread := Spelling.exponent_exponentText hs
  obtain ⟨exponent, hexponent⟩ : ∃ exponent, s.exponentText = 'e' :: exponent := by
    rw [Spelling.exponentText]
    split
    · contradiction
    · exact ⟨_, rfl⟩
  have hfraction : 'e' ∉ s.fractionText ∧ s.fractionText.filter (· != '.') = s.fraction := by
    rw [Spelling.fractionText]
    split
    next hnone => simp [hnone]
    next =>
        have hpoint : ('e' : Char) ≠ '.' := by decide
        simp [hpoint, not_mem_e hs.fraction, filter_point hs.fraction]
  have hmantissa : 'e' ∉ signed negative (s.whole ++ s.fractionText) := by
    have hsign : ('e' : Char) ≠ '-' := by decide
    cases negative <;> simp [signed, hsign, not_mem_e hs.whole, hfraction.1]
  have htext : signed negative s.chars =
      signed negative (s.whole ++ s.fractionText) ++ 'e' :: exponent := by
    rw [Spelling.chars, hexponent, ← List.append_assoc]
    cases negative <;> rfl
  have hsigned : sign (signed negative (s.whole ++ s.fractionText)) =
      (negative, s.whole ++ s.fractionText) := by
    cases negative with
    | true => rfl
    | false => exact sign_of_allDigits hs.whole hs.whole_ne _
  rw [respelled, htext, span_of_parts hmantissa]
  simp only [List.isEmpty_cons, Bool.false_eq_true, if_false, hsigned, List.filter_append,
    filter_point hs.whole, hfraction.2]
  rw [← hexponent, hread]
  rfl

theorem outside_data_iff :
    (decide (n < data.lowest) || decide (data.highest < n)) = true ↔ n ≤ -4 ∨ 16 < n := by
  have hlowest : data.lowest = -3 := rfl
  have hhighest : data.highest = 16 := rfl
  rw [hlowest, hhighest, Bool.or_eq_true, decide_eq_true_iff, decide_eq_true_iff]
  omega

theorem place_data (hwhole : ¬ (ds.length ≤ n ∧ n ≤ 21)) (hn : ¬ (n ≤ -4 ∨ 16 < n)) :
    data.place ds n = view.place ds n := by
  have hdata := outside_data_iff.not.mpr hn
  have hview : ¬ (decide (n < view.lowest) || decide (view.highest < n)) = true := by
    rw [outside_view_iff]
    omega
  have hshort : ¬ (ds.length : Int) ≤ n := fun h => hwhole ⟨h, by omega⟩
  rw [place, if_neg hdata, if_neg hshort, place, if_neg hview, if_neg hshort]

theorem not_mem_place (hds : AllDigits ds) (hn : ¬ (n ≤ -4 ∨ 16 < n)) :
    'e' ∉ data.place ds n := by
  have hpoint : ('e' : Char) ≠ '.' := by decide
  have hzero : ('e' : Char) ≠ '0' := by decide
  have hdigits := not_mem_e hds
  rw [place, if_neg (outside_data_iff.not.mpr hn)]
  split_ifs
  · simp [hpoint, hzero, hdigits, zeros]
  · simp [hpoint, hzero, hdigits, zeros, data]
  · simp [hpoint, mt List.mem_of_mem_take hdigits, mt List.mem_of_mem_drop hdigits]

theorem respelled_place (hds : AllDigits ds) (hne : ds ≠ []) (hwhole : ¬ (ds.length ≤ n ∧ n ≤ 21))
    (negative : Bool) :
    respelled (signed negative (data.place ds n)) = signed negative (view.place ds n) := by
  by_cases hn : n ≤ -4 ∨ 16 < n
  · have hout : n < data.lowest ∨ data.highest < n := by
      simpa using outside_data_iff.mpr hn
    rcases exists_laysOut_exponent hds hne hout with ⟨s, hs, hpower, hdigits, hvalue⟩
    rw [← hs.chars, respelled_signed hs.proper hpower, hdigits, hvalue, sub_add_cancel]
  · have hsign : ('e' : Char) ≠ '-' := by decide
    have hnone : 'e' ∉ signed negative (data.place ds n) := by
      cases negative <;> simp [signed, hsign, not_mem_place hds hn]
    rw [respelled_eq_self hnone, place_data hwhole hn]

end NumberLayout

/-! # Whole numbers -/

namespace Binary64

open NumberText

variable {rank : Nat}

theorem pos_of_size_eq {w : Nat} (hrank : 0 < rank) (hw : size rank = w) : 0 < w := by
  have hpos := size_pos hrank
  rw [hw] at hpos
  exact_mod_cast hpos

theorem exists_size {steps : Nat} (h : steps < 2 ^ 53) (scale : Nat) :
    ∃ rank, size rank = (steps * 2 ^ scale : Nat) := by
  obtain ⟨k, hk⟩ : ∃ k, 1074 = k := ⟨_, rfl⟩
  rcases exists_units h (scale + k) with ⟨rank, hrank⟩
  refine ⟨rank, ?_⟩
  have hone := one_pos_rat
  rw [size, hrank, Nat.pow_add, ← Nat.mul_assoc, ← one_eq hk, Nat.cast_mul]
  exact mul_div_cancel_right₀ _ hone.ne'

theorem exists_size_of_lt {w : Nat} (h : w < 2 ^ 53) : ∃ rank, size rank = w := by
  simpa using exists_size h 0

theorem exists_whole_of_le (h : (2 ^ 53 : ℚ) ≤ size rank) : ∃ w : Nat, size rank = w := by
  obtain ⟨k, hk⟩ : ∃ k, 1074 = k := ⟨_, rfl⟩
  have hone := one_pos_rat
  rcases exists_steps rank with ⟨scale, steps, rfl, hsteps, hscale⟩
  rw [size, units_steps hsteps.le hscale] at h ⊢
  have hlarge : 2 ^ 53 * 2 ^ k ≤ steps * 2 ^ scale := by
    rw [le_div_iff₀ hone, one_eq hk] at h
    exact_mod_cast h
  have hfine : k ≤ scale := by
    by_contra hless
    have hstep : 2 ^ scale ≤ 2 ^ k := Nat.pow_le_pow_right (by norm_num) (by omega)
    have hpos := Nat.two_pow_pos k
    have hshort : steps < 2 ^ 53 := hsteps
    nlinarith
  rcases Nat.exists_eq_add_of_le hfine with ⟨more, rfl⟩
  refine ⟨steps * 2 ^ more, ?_⟩
  rw [Nat.pow_add, Nat.mul_left_comm, Nat.mul_comm, ← one_eq hk, Nat.cast_mul]
  exact mul_div_cancel_right₀ _ hone.ne'

theorem lt_of_size_lt {other : Nat} (h : size rank < size other) : rank < other := by
  have hunits : (units rank : ℚ) < units other := by
    rw [← size_mul_one, ← size_mul_one]
    exact mul_lt_mul_of_pos_right h one_pos_rat
  exact strictMono_units.lt_iff_lt.mp (by exact_mod_cast hunits)

theorem RoundsTo.size_eq_of_lt {w : Nat} (h : RoundsTo w rank) (hw : w < 2 ^ 53) :
    size rank = w := by
  rcases exists_size_of_lt hw with ⟨other, hother⟩
  rw [← hother] at h
  rw [h.eq_of_size, hother]

theorem RoundsTo.lt_of_size_lt {y : ℚ} (steps scale : Nat) (h : RoundsTo y rank)
    (hsteps : steps < 2 ^ 53) (hlt : size rank < (steps * 2 ^ scale : Nat)) :
    y < (steps * 2 ^ scale : Nat) := by
  rcases exists_size hsteps scale with ⟨other, hother⟩
  rw [← hother] at hlt ⊢
  exact h.lt_size (Binary64.lt_of_size_lt hlt)

theorem RoundsTo.lt_of_size_lt_fractions {w : Nat} (h : RoundsTo w rank)
    (hlt : size rank < 2 ^ 53) : w < 2 ^ 53 := by
  have hpower : (2 ^ 53 : ℚ) = (1 * 2 ^ 53 : Nat) := by norm_num
  rw [hpower] at hlt
  have := h.lt_of_size_lt 1 53 (by norm_num) hlt
  rw [Nat.one_mul] at this
  exact_mod_cast this

section Whole

variable {t : ℤ} {d : Decimal} (h : Found rank t d) (hrank : 0 < rank)

theorem value_eq_of_exponent {d : Decimal} (h : 0 ≤ d.exponent) :
    d.value = (d.coefficient * 10 ^ d.exponent.toNat : Nat) := by
  have hexponent : d.exponent = (d.exponent.toNat : ℤ) := (Int.toNat_of_nonneg h).symm
  rw [Decimal.value]
  nth_rewrite 1 [hexponent]
  rw [zpow_natCast]
  push_cast
  rfl

include h

theorem Found.value_eq_of_small (hexponent : 0 ≤ d.exponent) (hsmall : size rank < 2 ^ 53) :
    d.value = size rank := by
  have hvalue := value_eq_of_exponent hexponent
  have hrounds := h.rounds
  rw [hvalue] at hrounds ⊢
  exact (hrounds.size_eq_of_lt (hrounds.lt_of_size_lt_fractions hsmall)).symm

include hrank

theorem Found.exponent_nonneg {w : Nat} (hw : size rank = w) : 0 ≤ d.exponent := by
  have hten : (1 : ℚ) < 10 := by norm_num
  have hpos := pos_of_size_eq hrank hw
  have hlead : 0 ≤ lead rank := by
    have hbelow : (10 : ℚ) ^ (0 : ℤ) < 10 ^ (lead rank + 1) := by
      refine lt_of_le_of_lt ?_ (lt_pow_lead hrank)
      rw [zpow_zero, hw]
      exact_mod_cast hpos
    have := (zpow_lt_zpow_iff_right₀ hten).mp hbelow
    omega
  by_contra hneg
  have hgrid : OnGrid 0 (size rank) := ⟨w, by rw [hw, zpow_zero, mul_one]⟩
  exact h.coarser 0 (by have := h.le_exponent; omega) hlead _ hgrid (roundsTo_size hrank)

theorem Found.pointAt_le_iff : d.pointAt ≤ 21 ↔ size rank < 10 ^ 21 := by
  have hten : (1 : ℚ) < 10 := by norm_num
  have hpower : (10 : ℚ) ^ 21 = (5 ^ 21 * 2 ^ 21 : Nat) := by norm_num
  have hcoefficient := Decimal.coefficient_ne_zero ((ten_zpow_pos _).trans_le h.pow_le)
  constructor
  · intro hpoint
    by_contra hlarge
    have hlead : (10 : ℚ) ^ (21 : ℤ) < 10 ^ (lead rank + 1) :=
      (not_lt.mp hlarge).trans_lt (lt_pow_lead hrank)
    have hlead' := (zpow_lt_zpow_iff_right₀ hten).mp hlead
    have hbelow := (zpow_lt_zpow_iff_right₀ hten).mp (h.pow_le.trans_lt d.value_lt)
    omega
  · intro hsmall
    rw [hpower] at hsmall
    have hvalue := h.rounds.lt_of_size_lt _ _ (by norm_num) hsmall
    rw [← hpower] at hvalue
    have hbelow : (10 : ℚ) ^ (d.pointAt - 1) < 10 ^ (21 : ℤ) :=
      (Decimal.le_value hcoefficient).trans_lt hvalue
    have := (zpow_lt_zpow_iff_right₀ hten).mp hbelow
    omega

theorem Found.whole_iff :
    ((d.digits.length : ℤ) ≤ d.pointAt ∧ d.pointAt ≤ 21) ↔
      ∃ w : Nat, size rank = w ∧ w < 10 ^ 21 := by
  rw [h.pointAt_le_iff hrank, Decimal.pointAt, le_add_iff_nonneg_right]
  constructor
  · rintro ⟨hexponent, hsmall⟩
    have hw : ∃ w : Nat, size rank = w := by
      rcases lt_or_ge (size rank) (2 ^ 53) with hbelow | hlarge
      · have hexact := h.value_eq_of_small hexponent hbelow
        exact ⟨_, hexact.symm.trans (value_eq_of_exponent hexponent)⟩
      · exact exists_whole_of_le hlarge
    rcases hw with ⟨w, hw⟩
    rw [hw] at hsmall
    exact ⟨w, hw, by exact_mod_cast hsmall⟩
  · rintro ⟨w, hw, hlt⟩
    refine ⟨h.exponent_nonneg hrank hw, ?_⟩
    rw [hw]
    exact_mod_cast hlt

end Whole

/-! # Texts -/

theorem decimal_mul_pow {c : Nat} (hc : c ≠ 0) (m : Nat) :
    decimal (c * 10 ^ m) = decimal c ++ List.replicate m '0' := by
  induction m with
  | zero => rw [Nat.pow_zero, Nat.mul_one, List.replicate_zero, List.append_nil]
  | succ m ih =>
      have hpos : 0 < c * 10 ^ m := Nat.mul_pos (Nat.pos_of_ne_zero hc) (Nat.pow_pos (by norm_num))
      have hten : c * 10 ^ (m + 1) = c * 10 ^ m * 10 := by ring
      rw [hten, decimal, Nat.toDigits_of_base_le (by norm_num) (by omega),
        Nat.mul_div_cancel _ (by norm_num), Nat.mul_mod_left, List.replicate_succ',
        ← List.append_assoc, ← ih]
      rfl

theorem written_decimal {d : Decimal} {w : Nat} (hcoefficient : d.coefficient ≠ 0)
    (hlength : d.digits.length ≤ d.pointAt) (hpoint : d.pointAt ≤ 21) (h : d.value = w) :
    Written d.digits d.pointAt (decimal w) := by
  have hexponent : 0 ≤ d.exponent := by
    rwa [Decimal.pointAt, le_add_iff_nonneg_right] at hlength
  have hw : w = d.coefficient * 10 ^ d.exponent.toNat := by
    rw [value_eq_of_exponent hexponent] at h
    exact_mod_cast h.symm
  have hzeros : d.exponent.toNat = (d.pointAt - d.digits.length).toNat := by
    rw [Decimal.pointAt, add_sub_cancel_left]
  rw [hw, decimal_mul_pow hcoefficient, hzeros]
  exact .whole hlength hpoint

section Ways

variable {negative : Bool} {rank : Fin finiteRanks}

theorem toInt?_of_size {w : Nat} (hw : size rank = w) :
    (finite negative rank).toInt? = some (if negative then -(w : Int) else w) := by
  have hunits : units rank = w * one := by
    have := size_mul_one rank
    rw [hw] at this
    exact_mod_cast this.symm
  simp only [toInt?, hunits, whole_mod_one, whole_div_one, beq_self_eq_true, if_true]

theorem exists_size_of_toInt? {n : Int} (h : (finite negative rank).toInt? = some n) :
    ∃ w : Nat, size rank = w ∧ w = n.natAbs := by
  have hpos := one_pos
  have hone := one_pos_rat.ne'
  rw [size]
  unfold toInt? at h
  generalize one = unit at h hpos hone
  dsimp only at h
  split at h
  next hzero =>
      rcases Nat.dvd_of_mod_eq_zero (eq_of_beq hzero) with ⟨w, hw⟩
      rw [hw, Nat.mul_div_cancel_left _ hpos] at h
      refine ⟨w, ?_, ?_⟩
      · rw [hw, Nat.cast_mul]
        exact mul_div_cancel_left₀ _ hone
      · cases h
        cases negative <;> simp
  · cases h

theorem viewText_of_whole {w : Nat} (hw : size rank = w) (hpos : 0 < w) (hlt : w < 10 ^ 21) :
    (finite negative rank).viewText =
      String.ofList (NumberLayout.signed negative (decimal w)) := by
  have hsmall : w < Nat.pow 10 21 := hlt
  have htext : decimalInt (if negative then -(w : Int) else w) =
      NumberLayout.signed negative (decimal w) := by
    cases negative with
    | true => simp [decimalInt, NumberLayout.signed, hpos]
    | false => simp [decimalInt, NumberLayout.signed]
  rw [← htext, viewText, toInt?_of_size hw]
  cases negative <;> simp [Option.filter, hsmall]

theorem viewText_of_other (hrank : 0 < rank.val) (h : ¬ ∃ w : Nat, size rank = w ∧ w < 10 ^ 21) :
    (finite negative rank).viewText =
      String.ofList (NumberLayout.respelled (NumberLayout.signed negative
        (NumberLayout.data.place (shortest rank).digits (shortest rank).pointAt))) := by
  have hnone : (finite negative rank).toInt?.filter (·.natAbs < Nat.pow 10 21) = none := by
    refine Option.filter_eq_none_iff.mpr fun n hn hsmall => h ?_
    rcases exists_size_of_toInt? hn with ⟨w, hw, rfl⟩
    exact ⟨_, hw, of_decide_eq_true hsmall⟩
  have hdata : NumberLayout.data.finite negative rank = NumberLayout.signed negative
      (NumberLayout.data.place (shortest rank).digits (shortest rank).pointAt) := by
    rw [NumberLayout.finite, if_neg (by simpa using hrank.ne')]
  rw [← hdata, viewText, hnone]
  rfl

/--
The text of a double follows the rule for its shortest digits, unless it is a whole number from
`2 ^ 53` to `10 ^ 21` and these digits stand for another number: then it has all digits of the
double.
-/
theorem viewText_written (hrank : 0 < rank.val) :
    IsShortest rank (shortest rank) ∧
      ∃ t, (finite negative rank).viewText = String.ofList (NumberLayout.signed negative t) ∧
        (Written (shortest rank).digits (shortest rank).pointAt t ∧
            (2 ^ 53 ≤ size rank → size rank < 10 ^ 21 → (shortest rank).value = size rank) ∨
          ∃ w : Nat, 2 ^ 53 ≤ w ∧ w < 10 ^ 21 ∧ size rank = w ∧ (shortest rank).value ≠ w ∧
            t = decimal w) := by
  refine ⟨isShortest_shortest hrank, ?_⟩
  rcases exists_found hrank with ⟨place, h⟩
  have hcoefficient := Decimal.coefficient_ne_zero ((ten_zpow_pos _).trans_le h.pow_le)
  by_cases hwhole : ∃ w : Nat, size rank = w ∧ w < 10 ^ 21
  · rcases (h.whole_iff hrank).mpr hwhole with ⟨hlength, hpoint⟩
    rcases hwhole with ⟨w, hw, hlt⟩
    have hpos := pos_of_size_eq hrank hw
    refine ⟨decimal w, viewText_of_whole hw hpos hlt, ?_⟩
    by_cases hexact : (shortest rank).value = w
    · have hwritten := written_decimal hcoefficient hlength hpoint hexact
      exact .inl ⟨hwritten, fun _ _ => hexact.trans hw.symm⟩
    · refine .inr ⟨w, ?_, hlt, hw, hexact, rfl⟩
      by_contra hsmall
      have hbelow : size rank < 2 ^ 53 := by
        rw [hw]
        exact_mod_cast not_le.mp hsmall
      exact hexact ((h.value_eq_of_small (h.exponent_nonneg hrank hw) hbelow).trans hw)
  · have hother : ¬ (((shortest rank).digits.length : ℤ) ≤ (shortest rank).pointAt ∧
        (shortest rank).pointAt ≤ 21) := fun hplace => hwhole ((h.whole_iff hrank).mp hplace)
    have hdigits : AllDigits (shortest rank).digits := allDigits_decimal _
    have hne : (shortest rank).digits ≠ [] := Nat.toDigits_ne_nil
    refine ⟨NumberLayout.view.place (shortest rank).digits (shortest rank).pointAt, ?_,
      .inl ⟨NumberLayout.written_place hne, ?_⟩⟩
    · rw [viewText_of_other hrank hwhole, NumberLayout.respelled_place hdigits hne hother]
    · intro hlarge hsmall
      rcases exists_whole_of_le hlarge with ⟨w, hw⟩
      rw [hw] at hsmall
      exact absurd ⟨w, hw, by exact_mod_cast hsmall⟩ hwhole

end Ways

theorem viewText_written_least :
    let rank : Fin finiteRanks := ⟨1, by decide⟩
    0 < rank.val ∧ IsShortest rank ⟨5, -324⟩ ∧ (finite true rank).viewText = "-5e-324" ∧
      Written ['5'] (-323) "5e-324".toList := by
  intro rank
  have hrank : 0 < rank.val := Nat.one_pos
  have hshortest : shortest rank = ⟨5, -324⟩ := by decide +kernel
  have hdigits : (⟨5, -324⟩ : Decimal).digits = ['5'] := by decide +kernel
  have hpoint : (⟨5, -324⟩ : Decimal).pointAt = -323 := by decide +kernel
  have htext : (finite true rank).viewText = "-5e-324" := by decide +kernel
  have hwritten : IsShortest rank (shortest rank) ∧ ∃ t, (finite true rank).viewText =
      String.ofList (NumberLayout.signed true t) ∧ _ := viewText_written hrank
  rcases hwritten with ⟨hbest, t, ht, hcases⟩
  have hchars : "-5e-324".toList = NumberLayout.signed true t := by
    rw [← htext, ht, String.toList_ofList]
  have htail : t = "5e-324".toList := (List.cons.inj hchars).2.symm
  rw [hshortest] at hbest
  rw [hshortest, hdigits, hpoint, htail] at hcases
  refine ⟨hrank, hbest, htext, ?_⟩
  rcases hcases with ⟨hrule, -⟩ | ⟨w, -, -, -, -, hw⟩
  · exact hrule
  · have hdigit : 'e'.isDigit = true := allDigits_decimal w 'e' (hw ▸ by decide)
    cases hdigit

/-- The double `2 ^ 60` is written with other digits than its shortest ones. -/
theorem viewText_not_shortest :
    let rank : Fin finiteRanks := ⟨1083 * 2 ^ 52, by decide⟩
    (finite false rank).viewText = "1152921504606846976" ∧
      ∀ t, Written (shortest rank).digits (shortest rank).pointAt t →
        t = "1152921504606847000".toList := by
  intro rank
  have hshortest : shortest rank = ⟨1152921504606847, 3⟩ := by decide +kernel
  have hpoint : (⟨1152921504606847, 3⟩ : Decimal).pointAt = 19 := by decide +kernel
  have hdigits : (⟨1152921504606847, 3⟩ : Decimal).digits = "1152921504606847".toList := by
    decide +kernel
  refine ⟨by decide +kernel, fun t h => ?_⟩
  rw [hshortest, hpoint, hdigits] at h
  cases h with
  | whole => rfl
  | broken _ hlt => exact absurd hlt (by decide)
  | below _ hn => exact absurd hn (by decide)
  | digit hn => exact absurd hn (by decide)
  | digits hn => exact absurd hn (by decide)

end Binary64
end Stencil
