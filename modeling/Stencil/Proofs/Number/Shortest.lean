import Mathlib
import Stencil.Number.Reading
import Stencil.Proofs.Number.Rounding

/-!
# Shortest digits

The digits that a double is written with lie in its span. They are searched on ever finer grids,
and seventeen digits are always enough: a step of the last grid is smaller than the distance to
either neighbour, so the span has a point of the grid. What lies in the span is rounded to the
double, whichever way it is written down.
-/

namespace Stencil

/-! # Decimals as numbers -/

def Decimal.value (d : Decimal) : ℚ :=
  d.coefficient * (10 : ℚ) ^ d.exponent

theorem ten_zpow (e : ℤ) : (10 : ℚ) ^ e = 10 ^ e.toNat / 10 ^ (-e).toNat := by
  rw [← zpow_natCast, ← zpow_natCast, ← zpow_sub₀ (by norm_num), Int.toNat_sub_toNat_neg]

namespace Binary64

theorem digitCount_pos (n : Nat) : 0 < digitCount n :=
  List.length_pos_iff.mpr Nat.toDigits_ne_nil

theorem lt_pow_digitCount (n : Nat) : n < 10 ^ digitCount n :=
  (Nat.length_toDigits_le_iff (by norm_num) (digitCount_pos n)).mp (Nat.le_refl _)

theorem pow_digitCount_le {n : Nat} (h : n ≠ 0) : 10 ^ (digitCount n - 1) ≤ n := by
  rcases Nat.eq_zero_or_pos (digitCount n - 1) with hone | hmore
  · rw [hone, Nat.pow_zero]
    exact Nat.pos_of_ne_zero h
  · by_contra hless
    have hshort := (Nat.length_toDigits_le_iff (by norm_num) hmore).mpr (Nat.lt_of_not_le hless)
    have hpos := digitCount_pos n
    rw [digitCount] at hshort hpos
    omega

end Binary64

namespace Decimal

open Binary64

theorem value_dropZeros (fuel : Nat) (d : Decimal) : (d.dropZeros fuel).value = d.value := by
  induction fuel generalizing d with
  | zero => rfl
  | succ fuel ih =>
      rw [dropZeros]
      split
      next h =>
          rw [ih]
          have hten : d.coefficient = 10 * (d.coefficient / 10) := by
            simp only [Bool.and_eq_true, bne_iff_ne, beq_iff_eq] at h
            omega
          rw [value, value, zpow_add_one₀ (by norm_num)]
          nth_rewrite 2 [hten]
          push_cast
          ring
      · rfl

theorem coefficient_ne_zero {d : Decimal} (h : 0 < d.value) : d.coefficient ≠ 0 := by
  intro hzero
  rw [value, hzero, Nat.cast_zero, zero_mul] at h
  exact lt_irrefl _ h

section Size

variable {d : Decimal}

theorem value_lt (d : Decimal) : d.value < (10 : ℚ) ^ d.pointAt := by
  rw [value, pointAt, zpow_add₀ (by norm_num), zpow_natCast]
  exact mul_lt_mul_of_pos_right (by exact_mod_cast lt_pow_digitCount d.coefficient)
    (zpow_pos (by norm_num) _)

theorem le_value (h : d.coefficient ≠ 0) : (10 : ℚ) ^ (d.pointAt - 1) ≤ d.value := by
  have hpos : 0 < d.digits.length := digitCount_pos d.coefficient
  have hexponent : d.pointAt - 1 = ((d.digits.length - 1 : Nat) : ℤ) + d.exponent := by
    rw [pointAt]
    omega
  rw [value, hexponent, zpow_add₀ (by norm_num), zpow_natCast]
  exact mul_le_mul_of_nonneg_right (by exact_mod_cast pow_digitCount_le h)
    (zpow_nonneg (by norm_num) _)

end Size

end Decimal

namespace Binary64

theorem one_pos : 0 < one := by
  unfold one
  generalize 1074 = n
  exact Nat.two_pow_pos n

/-! # Spans -/

structure Span.Has (s : Span) (x : ℚ) : Prop where
  low : (s.low : ℚ) ≤ 2 * x
  high : 2 * x ≤ s.high
  inside : s.closed = false → (s.low : ℚ) < 2 * x ∧ 2 * x < s.high

theorem value_mul_one (d : Decimal) :
    d.value * one =
      ((d.coefficient * one * 10 ^ d.exponent.toNat : Nat) : ℚ) /
        ((10 ^ (-d.exponent).toNat : Nat) : ℚ) := by
  rw [Decimal.value, ten_zpow]
  push_cast
  ring

namespace Span

variable {s : Span}

theorem has_div_iff {num den : Nat} (hden : 0 < den) :
    s.Has (num / den : ℚ) ↔ s.Around num den := by
  have hden' : (0 : ℚ) < den := by exact_mod_cast hden
  have hle (n : Nat) : (n : ℚ) ≤ 2 * (num / den) ↔ n * den ≤ 2 * num := by
    rw [← mul_div_assoc, le_div_iff₀ hden']
    exact_mod_cast Iff.rfl
  have hge (n : Nat) : 2 * (num / den : ℚ) ≤ n ↔ 2 * num ≤ n * den := by
    rw [← mul_div_assoc, div_le_iff₀ hden']
    exact_mod_cast Iff.rfl
  constructor
  · intro h
    refine ⟨(hle _).mp h.low, (hge _).mp h.high, fun hopen => ?_⟩
    rcases h.inside hopen with ⟨hlow, hhigh⟩
    exact ⟨lt_of_not_ge fun hreach => not_le.mpr hlow ((hge _).mpr hreach),
      lt_of_not_ge fun hreach => not_le.mpr hhigh ((hle _).mpr hreach)⟩
  · intro h
    refine ⟨(hle _).mpr h.low, (hge _).mpr h.high, fun hopen => ?_⟩
    rcases h.inside hopen with ⟨hlow, hhigh⟩
    exact ⟨lt_of_not_ge fun hreach => not_le.mpr hlow ((hge _).mp hreach),
      lt_of_not_ge fun hreach => not_le.mpr hhigh ((hle _).mp hreach)⟩

theorem holds_iff {c : Nat} {t : ℤ} :
    s.holds c t = true ↔ s.Has ((⟨c, t⟩ : Decimal).value * one) := by
  have hden : 0 < 10 ^ (-t).toNat := Nat.pow_pos (by norm_num)
  have hround : s.Has ((⟨c, t⟩ : Decimal).value * one) ↔
      s.Around (c * one * 10 ^ t.toNat) (10 ^ (-t).toNat) := by
    rw [value_mul_one]
    exact has_div_iff hden
  rw [hround, holds]
  have hdouble : 2 * c * one * Nat.pow 10 t.toNat = 2 * (c * one * 10 ^ t.toNat) := by
    show 2 * c * one * 10 ^ t.toNat = _
    ring
  rw [hdouble]
  show (if s.closed = true then _ else _) = true ↔ _
  cases hclosed : s.closed with
  | true =>
      simp only [if_true, Bool.and_eq_true, decide_eq_true_eq]
      exact ⟨fun h => ⟨h.1, h.2, by simp [hclosed]⟩, fun h => ⟨h.low, h.high⟩⟩
  | false =>
      simp only [Bool.false_eq_true, if_false, Bool.and_eq_true, decide_eq_true_eq]
      exact ⟨fun h => ⟨h.1.le, h.2.le, fun _ => h⟩, fun h => h.inside hclosed⟩

end Span

/-! # Sizes -/

theorem one_eq {k : Nat} (h : 1074 = k) : one = 2 ^ k := by
  unfold one
  generalize 1074 = n at h
  subst h
  rfl

theorem two_pow_le_ten_pow {a b : Nat} (h : a ≤ 3 * b) : 2 ^ a ≤ 10 ^ b :=
  calc
    2 ^ a ≤ 2 ^ (3 * b) := Nat.pow_le_pow_right (by norm_num) h
    _ = 8 ^ b := Nat.pow_mul 2 3 b
    _ ≤ 10 ^ b := Nat.pow_le_pow_left (by norm_num) b

theorem double_one_le {n : Nat} (h : 1075 ≤ 3 * n) : 2 * one ≤ 10 ^ n := by
  obtain ⟨k, hk⟩ : ∃ k, 1074 = k := ⟨_, rfl⟩
  rw [one_eq hk, ← Nat.pow_succ']
  exact two_pow_le_ten_pow (by omega)

theorem units_pos {rank : Nat} (h : 0 < rank) : 0 < units rank := by
  cases place h with
  | inside hpos hsteps hscale =>
      rw [units_steps hsteps.le (hscale.imp_right Nat.le_of_lt)]
      exact Nat.mul_pos hpos (Nat.two_pow_pos _)
  | first finer =>
      rw [units_steps (by omega) (.inr (Nat.le_refl _))]
      exact Nat.mul_pos binade_pos (Nat.two_pow_pos _)

theorem low_span_pos {rank : Nat} (h : 0 < rank) : 0 < (span rank).low :=
  Nat.add_pos_right _ (units_pos h)

theorem high_span_le {rank n : Nat} (h : rank < finiteRanks) (hn : 1024 ≤ 3 * n) :
    (span rank).high ≤ 2 * one * 10 ^ n := by
  have hbinade := binade_pos
  rcases exists_steps rank with ⟨scale, steps, rfl, hsteps, hscale⟩
  have hbound : scale ≤ 2045 := by
    have hfinite : scale * binade + steps < 2047 * binade := h
    by_contra hlarge
    have : 2046 * binade ≤ scale * binade := Nat.mul_le_mul_right _ (by omega)
    omega
  have hbinade' : 2 * binade = 2 ^ 53 := rfl
  obtain ⟨k, hk⟩ : ∃ k, 1074 = k := ⟨_, rfl⟩
  calc
    (span (scale * binade + steps)).high = (2 * steps + 1) * 2 ^ scale := high_span hsteps hscale
    _ ≤ 2 ^ 54 * 2 ^ scale := Nat.mul_le_mul_right _ (by omega)
    _ = 2 ^ (54 + scale) := (Nat.pow_add 2 54 scale).symm
    _ ≤ 2 ^ (k + 1 + 3 * n) := Nat.pow_le_pow_right (by norm_num) (by omega)
    _ = 2 * 2 ^ k * 2 ^ (3 * n) := by rw [Nat.pow_add, Nat.pow_succ']
    _ ≤ 2 * 2 ^ k * 10 ^ n := Nat.mul_le_mul_left _ (two_pow_le_ten_pow (Nat.le_refl _))
    _ = 2 * one * 10 ^ n := by rw [one_eq hk]

/-! # Reading a decimal -/

theorem value_pos_of_has {rank : Nat} (hrank : 0 < rank) {d : Decimal}
    (h : (span rank).Has (d.value * one)) : 0 < d.value := by
  have hone : (0 : ℚ) < one := by exact_mod_cast one_pos
  have hlow : (0 : ℚ) < (span rank).low := by exact_mod_cast low_span_pos hrank
  by_contra hnonpos
  have hvalue := mul_nonpos_of_nonpos_of_nonneg (not_lt.mp hnonpos) hone.le
  linarith [h.low]

theorem pointAt_of_has {rank : Nat} (hrank : 0 < rank) (hfinite : rank < finiteRanks)
    {d : Decimal} (h : (span rank).Has (d.value * one)) :
    ¬ 400 < d.pointAt ∧ ¬ d.pointAt < -400 := by
  have hone : (0 : ℚ) < one := by exact_mod_cast one_pos
  have hten : (1 : ℚ) < 10 := by norm_num
  -- A bound on the exponents of all doubles, kept as a variable.
  obtain ⟨n, hn⟩ : ∃ n, 399 = n := ⟨_, rfl⟩
  have hpos := value_pos_of_has hrank h
  constructor
  · intro hfar
    have hhigh : 2 * (d.value * one) ≤ 2 * one * 10 ^ n :=
      le_trans h.high (by exact_mod_cast high_span_le hfinite (n := n) (by omega))
    have hbelow : d.value ≤ 10 ^ n := by
      have : d.value * one ≤ 10 ^ n * one := by linarith
      exact le_of_mul_le_mul_right this hone
    have hstart : (10 : ℚ) ^ (d.pointAt - 1) ≤ 10 ^ (n : ℤ) := by
      rw [zpow_natCast]
      exact (Decimal.le_value (Decimal.coefficient_ne_zero hpos)).trans hbelow
    have := (zpow_le_zpow_iff_right₀ hten).mp hstart
    omega
  · intro hfar
    have hlow : (1 : ℚ) ≤ 2 * (d.value * one) :=
      le_trans (by exact_mod_cast low_span_pos hrank) h.low
    have habove : 1 ≤ d.value * 10 ^ n :=
      calc
        (1 : ℚ) ≤ d.value * (2 * one) := by linarith
        _ ≤ d.value * 10 ^ n :=
            mul_le_mul_of_nonneg_left (by exact_mod_cast double_one_le (n := n) (by omega)) hpos.le
    have hend : (10 : ℚ) ^ (-(n : ℤ)) < 10 ^ d.pointAt := by
      refine lt_of_le_of_lt ?_ d.value_lt
      rw [zpow_neg, zpow_natCast, inv_le_iff_one_le_mul₀ (by positivity)]
      exact habove
    have := (zpow_lt_zpow_iff_right₀ hten).mp hend
    omega

theorem toBinary_of_has {rank : Nat} (hrank : 0 < rank) (hfinite : rank < finiteRanks)
    {d : Decimal} (h : (span rank).Has (d.value * one)) (negative : Bool) :
    d.toBinary negative = .finite negative ⟨rank, hfinite⟩ := by
  have hcoefficient := Decimal.coefficient_ne_zero (value_pos_of_has hrank h)
  rcases pointAt_of_has hrank hfinite h with ⟨hupper, hlower⟩
  have hden : 0 < 10 ^ (-d.exponent).toNat := Nat.pow_pos (by norm_num)
  rw [value_mul_one, Span.has_div_iff hden] at h
  have hnearest := nearestRank_of_around hden hrank h
  rw [Decimal.toBinary, if_neg (by simpa using hcoefficient), if_neg hupper, if_neg hlower]
  show ofRank negative (nearestRank (d.coefficient * one * 10 ^ d.exponent.toNat)
    (10 ^ (-d.exponent).toNat)) = _
  rw [hnearest, ofRank, dif_pos hfinite]

/-! # Grids -/

theorem units_lt_gap {rank : Nat} (h : 0 < rank) :
    units rank < 10 ^ 16 * (2 * units rank - (span rank).low) := by
  have hbinade : 2 * binade < 10 ^ 16 := by
    rw [show 2 * binade = 2 ^ 53 from rfl]
    norm_num
  cases place h with
  | @inside scale steps hpos hsteps hscale =>
      have hunits := units_steps hsteps.le (hscale.imp_right Nat.le_of_lt)
      have hgap : 2 * units (scale * binade + steps) - (span (scale * binade + steps)).low =
          2 ^ scale := by
        rw [low_span hpos hsteps hscale, hunits, ← Nat.mul_assoc, ← Nat.sub_mul,
          show 2 * steps - (2 * steps - 1) = 1 by omega, Nat.one_mul]
      rw [hgap, hunits]
      exact Nat.mul_lt_mul_of_pos_right (by omega) (Nat.two_pow_pos scale)
  | first finer =>
      have hunits : units ((finer + 1) * binade + binade) = 2 * binade * 2 ^ finer := by
        rw [units_steps (by omega) (.inr (Nat.le_refl _)), Nat.pow_succ]
        ring
      have hgap : 2 * units ((finer + 1) * binade + binade) -
          (span ((finer + 1) * binade + binade)).low = 2 ^ finer := by
        have := binade_pos
        rw [low_span_first, hunits, ← Nat.mul_assoc, ← Nat.sub_mul,
          show 2 * (2 * binade) - (4 * binade - 1) = 1 by omega, Nat.one_mul]
      rw [hgap, hunits]
      exact Nat.mul_lt_mul_of_pos_right hbinade (Nat.two_pow_pos finer)

theorem low_add_high_span {rank : Nat} (h : 0 < rank) :
    4 * units rank ≤ (span rank).low + (span rank).high := by
  cases place h with
  | inside hpos hsteps hscale =>
      have hnormal := hscale.imp_right Nat.le_of_lt
      rw [high_span hsteps hnormal, units_steps hsteps.le hnormal, low_span hpos hsteps hscale,
        ← Nat.add_mul, ← Nat.mul_assoc]
      exact Nat.mul_le_mul_right _ (by omega)
  | first finer =>
      have := binade_pos
      rw [high_span (by omega) (.inr (Nat.le_refl _)),
        units_steps (by omega) (.inr (Nat.le_refl _)),
        low_span_first, Nat.pow_succ]
      have : 8 * binade * 2 ^ finer ≤ (4 * binade - 1 + 2 * (2 * binade + 1)) * 2 ^ finer :=
        Nat.mul_le_mul_right _ (by omega)
      linarith

theorem grid_bounds {n c : Nat} {t : ℤ} (hc : n * 10 ^ (-t).toNat / (one * 10 ^ t.toNat) = c) :
    (c : ℚ) * (10 ^ t * one) ≤ n ∧ (n : ℚ) < ((c + 1 : Nat) : ℚ) * (10 ^ t * one) := by
  have hden : 0 < one * 10 ^ t.toNat := Nat.mul_pos one_pos (Nat.pow_pos (by norm_num))
  have hscale : (0 : ℚ) < 10 ^ (-t).toNat := by positivity
  have hstep : (10 : ℚ) ^ t * one = one * 10 ^ t.toNat / 10 ^ (-t).toNat := by
    rw [ten_zpow]
    ring
  have hlow : c * (one * 10 ^ t.toNat) ≤ n * 10 ^ (-t).toNat :=
    hc ▸ Nat.div_mul_le_self _ _
  have hhigh : n * 10 ^ (-t).toNat < (c + 1) * (one * 10 ^ t.toNat) := by
    rw [← hc, ← Nat.div_lt_iff_lt_mul hden]
    exact Nat.lt_succ_self _
  rw [hstep, ← mul_div_assoc, div_le_iff₀ hscale, ← mul_div_assoc, lt_div_iff₀ hscale]
  exact ⟨by exact_mod_cast hlow, by exact_mod_cast hhigh⟩

theorem isSome_onGrid {rank : Nat} (h : 0 < rank) {t : ℤ}
    (hfine : (10 : ℚ) ^ t * one < 2 * units rank - (span rank).low) :
    (onGrid? rank t).isSome = true := by
  have hgaps : (4 : ℚ) * units rank ≤ (span rank).low + (span rank).high := by
    exact_mod_cast low_add_high_span h
  obtain ⟨c, hc⟩ : ∃ c, units rank * 10 ^ (-t).toNat / (one * 10 ^ t.toNat) = c := ⟨_, rfl⟩
  rcases grid_bounds hc with ⟨hbelow, habove⟩
  have hpoint (k : Nat) : (⟨k, t⟩ : Decimal).value * one = k * (10 ^ t * one) := by
    rw [Decimal.value]
    ring
  have hone : (0 : ℚ) < one := by exact_mod_cast one_pos
  have hstep : (0 : ℚ) < 10 ^ t * one := mul_pos (zpow_pos (by norm_num) t) hone
  have hfound : (span rank).holds c t = true ∨ (span rank).holds (c + 1) t = true := by
    rw [Span.holds_iff, Span.holds_iff, hpoint, hpoint]
    rcases lt_or_ge ((span rank).low : ℚ) (2 * (c * (10 ^ t * one))) with hinside | houtside
    · have hhigh : 2 * (c * (10 ^ t * one)) < ((span rank).high : ℚ) := by linarith
      exact .inl ⟨hinside.le, hhigh.le, fun _ => ⟨hinside, hhigh⟩⟩
    · have hlow : ((span rank).low : ℚ) < 2 * (((c + 1 : Nat) : ℚ) * (10 ^ t * one)) := by linarith
      have hhigh : 2 * (((c + 1 : Nat) : ℚ) * (10 ^ t * one)) < (span rank).high := by
        push_cast
        linarith
      exact .inr ⟨hlow.le, hhigh.le, fun _ => ⟨hlow, hhigh⟩⟩
  unfold onGrid?
  dsimp only
  split
  · split <;> rfl
  · rfl
  · rfl
  next hlow hhigh =>
      rcases hfound with hfound | hfound
      · subst hc
        cases hlow.symm.trans hfound
      · subst hc
        cases hhigh.symm.trans hfound

theorem has_onGrid {rank : Nat} {t : ℤ} {d : Decimal} (h : onGrid? rank t = some d) :
    (span rank).Has (d.value * one) := by
  refine Span.holds_iff.mp ?_
  unfold onGrid? at h
  dsimp only at h
  split at h
  next hlow hhigh =>
      split at h <;> cases h
      · exact hlow
      · exact hhigh
  next hlow hhigh => cases h; exact hlow
  next hlow hhigh => cases h; exact hhigh
  · cases h

theorem exists_grid {rank left : Nat} {t : ℤ}
    (h : ∃ i < left, (onGrid? rank (t - i)).isSome = true) :
    ∃ s ≤ t, onGrid? rank s = some (searchGrids rank left t) ∧
      ∀ s', s < s' → s' ≤ t → onGrid? rank s' = none := by
  induction left generalizing t with
  | zero =>
      rcases h with ⟨i, hi, _⟩
      omega
  | succ left ih =>
      rw [searchGrids]
      cases hgrid : onGrid? rank t with
      | some d => exact ⟨t, le_rfl, hgrid, fun s' hlt hle => absurd hlt (not_lt.mpr hle)⟩
      | none =>
          rcases h with ⟨i, hi, hfound⟩
          cases i with
          | zero =>
              rw [Nat.cast_zero, sub_zero, hgrid] at hfound
              cases hfound
          | succ i =>
              have hnext : (onGrid? rank (t - 1 - i)).isSome = true := by
                rw [Nat.cast_succ] at hfound
                rwa [sub_sub, add_comm (1 : ℤ)]
              rcases ih ⟨i, by omega, hnext⟩ with ⟨s, hs, hfirst, hcoarser⟩
              refine ⟨s, by omega, hfirst, fun s' hlt hle => ?_⟩
              rcases Int.lt_or_eq_of_le hle with hbelow | rfl
              · exact hcoarser s' hlt (by omega)
              · exact hgrid

theorem pow_leadingExponent_le {num den : Nat} (hnum : 0 < num) (hden : 0 < den) :
    (10 : ℚ) ^ leadingExponent num den * den ≤ num := by
  rw [leadingExponent]
  split
  next hlarge =>
      have hquotient : num / den ≠ 0 := Nat.ne_of_gt (Nat.div_pos hlarge hden)
      have hexponent : (digitCount (num / den) : ℤ) - 1 = (digitCount (num / den) - 1 : Nat) := by
        have := digitCount_pos (num / den)
        omega
      have hle : 10 ^ (digitCount (num / den) - 1) * den ≤ num :=
        (Nat.mul_le_mul_right den (pow_digitCount_le hquotient)).trans (Nat.div_mul_le_self num den)
      rw [hexponent, zpow_natCast]
      exact_mod_cast hle
  next hsmall =>
      have hlt := lt_pow_digitCount ((den - 1) / num)
      rw [Nat.div_lt_iff_lt_mul hnum] at hlt
      have hle : den ≤ num * 10 ^ digitCount ((den - 1) / num) := by
        rw [Nat.mul_comm]
        omega
      rw [zpow_neg, zpow_natCast, inv_mul_le_iff₀ (by positivity), mul_comm]
      exact_mod_cast hle

theorem isSome_lastGrid {rank : Nat} (h : 0 < rank) :
    (onGrid? rank (leadingExponent (units rank) one - (16 : Nat))).isSome = true := by
  refine isSome_onGrid h ?_
  have hlead := pow_leadingExponent_le (units_pos h) one_pos
  have hgap : (units rank : ℚ) < 10 ^ 16 * (2 * units rank - (span rank).low) := by
    have hlow : (span rank).low ≤ 2 * units rank := by
      have := units_lt_gap h
      omega
    have hcast : ((2 * units rank - (span rank).low : Nat) : ℚ) =
        2 * units rank - (span rank).low := by
      push_cast [hlow]
      ring
    rw [← hcast]
    exact_mod_cast units_lt_gap h
  rw [zpow_sub₀ (by norm_num), zpow_natCast, div_mul_eq_mul_div, div_lt_iff₀ (by norm_num)]
  linarith

theorem has_shortest {rank : Nat} (h : 0 < rank) :
    (span rank).Has ((shortest rank).value * one) := by
  have hlast : ∃ i < 17,
      (onGrid? rank (leadingExponent (units rank) one - (i : Nat))).isSome = true :=
    ⟨16, by norm_num, isSome_lastGrid h⟩
  rcases exists_grid hlast with ⟨_, -, hfirst, -⟩
  rw [shortest, Decimal.value_dropZeros]
  exact has_onGrid hfirst

end Binary64
end Stencil
