import Mathlib
import Stencil.Proofs.Number.Spans

/-!
# Which digits are the shortest

The search for the digits of a double goes over the grids of powers of ten, from that of its
leading digit on, and ends on the first one that has a point in the span of the double. So no
decimal with fewer digits is read as the double, and none with as many digits is nearer to it.
-/

namespace Stencil
namespace Binary64

/-! # Grids -/

def OnGrid (t : ℤ) (y : ℚ) : Prop :=
  ∃ k : Nat, y = k * (10 : ℚ) ^ t

theorem OnGrid.mono {s t : ℤ} {y : ℚ} (h : OnGrid t y) (hle : s ≤ t) : OnGrid s y := by
  rcases h with ⟨k, rfl⟩
  rcases Int.le.dest hle with ⟨more, rfl⟩
  refine ⟨k * 10 ^ more, ?_⟩
  rw [add_comm s, zpow_add₀ (by norm_num), zpow_natCast]
  push_cast
  ring

theorem onGrid_value (d : Decimal) : OnGrid d.exponent d.value :=
  ⟨d.coefficient, rfl⟩

theorem ten_zpow_pos (t : ℤ) : (0 : ℚ) < 10 ^ t :=
  zpow_pos (by norm_num) t

section Neighbours

variable {rank : Nat} {t : ℤ}

/-- The points of a grid on either side of a double, and what is left over to the lower one. -/
structure Beside (rank : Nat) (t : ℤ) (c rest den : Nat) : Prop where
  den_pos : 0 < den
  rest_lt : rest < den
  size_eq : size rank = c * 10 ^ t + rest / den * 10 ^ t

theorem beside (rank : Nat) (t : ℤ) :
    Beside rank t (units rank * 10 ^ (-t).toNat / (one * 10 ^ t.toNat))
      (units rank * 10 ^ (-t).toNat % (one * 10 ^ t.toNat)) (one * 10 ^ t.toNat) := by
  have hden : 0 < one * 10 ^ t.toNat := Nat.mul_pos one_pos (Nat.pow_pos (by norm_num))
  refine ⟨hden, Nat.mod_lt _ hden, ?_⟩
  have hsplit := Nat.div_add_mod (units rank * 10 ^ (-t).toNat) (one * 10 ^ t.toNat)
  have hquotient : size rank = (units rank * 10 ^ (-t).toNat : Nat) / (one * 10 ^ t.toNat : Nat) *
      (10 : ℚ) ^ t := by
    have hone := one_pos_rat.ne'
    rw [size, ten_zpow]
    push_cast
    field_simp
  have hden' : ((one * 10 ^ t.toNat : Nat) : ℚ) ≠ 0 := by
    exact_mod_cast hden.ne'
  rw [hquotient, ← add_mul]
  congr 1
  rw [div_eq_iff hden', add_mul, div_mul_cancel₀ _ hden', mul_comm (_ : ℚ)]
  exact_mod_cast hsplit.symm

variable {c rest den : Nat}

theorem Beside.le (h : Beside rank t c rest den) : c * (10 : ℚ) ^ t ≤ size rank := by
  rw [h.size_eq]
  exact le_add_of_nonneg_right
    (mul_nonneg (div_nonneg (Nat.cast_nonneg _) (Nat.cast_nonneg _)) (ten_zpow_pos t).le)

theorem Beside.lt (h : Beside rank t c rest den) : size rank < ((c + 1 : Nat) : ℚ) * 10 ^ t := by
  have hden : (0 : ℚ) < den := by exact_mod_cast h.den_pos
  have hrest : (rest : ℚ) / den < 1 := by
    rw [div_lt_one hden]
    exact_mod_cast h.rest_lt
  rw [h.size_eq]
  push_cast
  rw [add_mul, one_mul]
  linarith [mul_lt_mul_of_pos_right hrest (ten_zpow_pos t)]

theorem Beside.nearer (h : Beside rank t c rest den) :
    (2 * rest ≤ den → size rank - c * 10 ^ t ≤ ((c + 1 : Nat) : ℚ) * 10 ^ t - size rank) ∧
      (den ≤ 2 * rest → ((c + 1 : Nat) : ℚ) * 10 ^ t - size rank ≤ size rank - c * 10 ^ t) := by
  have hden : (0 : ℚ) < den := by exact_mod_cast h.den_pos
  have hstep := ten_zpow_pos t
  have hbelow : size rank - c * 10 ^ t = rest / den * 10 ^ t := by
    rw [h.size_eq]
    ring
  have habove : ((c + 1 : Nat) : ℚ) * 10 ^ t - size rank = (1 - rest / den) * 10 ^ t := by
    rw [h.size_eq]
    push_cast
    ring
  rw [hbelow, habove]
  constructor
  · intro hless
    refine mul_le_mul_of_nonneg_right ?_ hstep.le
    have hhalf : (rest : ℚ) / den ≤ 1 / 2 := by
      rw [div_le_iff₀ hden]
      have : (2 * rest : ℚ) ≤ den := by exact_mod_cast hless
      linarith
    linarith
  · intro hmore
    refine mul_le_mul_of_nonneg_right ?_ hstep.le
    have hhalf : 1 / 2 ≤ (rest : ℚ) / den := by
      rw [le_div_iff₀ hden]
      have : (den : ℚ) ≤ 2 * rest := by exact_mod_cast hmore
      linarith
    linarith

theorem Beside.exists_nearer (h : Beside rank t c rest den) (hrank : 0 < rank) {y : ℚ}
    (hy : OnGrid t y) (hround : RoundsTo y rank) :
    (RoundsTo (c * 10 ^ t) rank ∧ |c * 10 ^ t - size rank| ≤ |y - size rank|) ∨
      (RoundsTo (((c + 1 : Nat) : ℚ) * 10 ^ t) rank ∧
        |((c + 1 : Nat) : ℚ) * 10 ^ t - size rank| ≤ |y - size rank|) := by
  have hself := roundsTo_size hrank
  rcases hy with ⟨k, rfl⟩
  rcases Nat.lt_or_ge c k with hlt | hle
  · have hstep : ((c + 1 : Nat) : ℚ) * 10 ^ t ≤ k * 10 ^ t :=
      mul_le_mul_of_nonneg_right (by exact_mod_cast hlt) (ten_zpow_pos t).le
    refine .inr ⟨hself.between hround h.lt.le hstep, ?_⟩
    rw [abs_of_pos (sub_pos.mpr h.lt), abs_of_pos (sub_pos.mpr (h.lt.trans_le hstep))]
    linarith
  · have hstep : (k : ℚ) * 10 ^ t ≤ c * 10 ^ t :=
      mul_le_mul_of_nonneg_right (by exact_mod_cast hle) (ten_zpow_pos t).le
    refine .inl ⟨hround.between hself hstep h.le, ?_⟩
    rw [abs_of_nonpos (sub_nonpos.mpr h.le), abs_of_nonpos (sub_nonpos.mpr (hstep.trans h.le))]
    linarith

end Neighbours

/-- What a search takes from a grid is one of the points next to the double, the nearest one. -/
structure Takes (rank : Nat) (t : ℤ) (c : Nat) (d : Decimal) : Prop where
  point : d = ⟨c, t⟩ ∨ d = ⟨c + 1, t⟩
  rounds : RoundsTo d.value rank
  below : RoundsTo (c * 10 ^ t) rank → |d.value - size rank| ≤ |c * 10 ^ t - size rank|
  above : RoundsTo (((c + 1 : Nat) : ℚ) * 10 ^ t) rank →
    |d.value - size rank| ≤ |((c + 1 : Nat) : ℚ) * 10 ^ t - size rank|

theorem holds_eq_false_iff {rank c : Nat} {t : ℤ} :
    (span rank).holds c t = false ↔ ¬ RoundsTo (c * 10 ^ t) rank := by
  rw [Bool.eq_false_iff, ne_eq, Span.holds_iff]
  exact Iff.rfl

def pick? (s : Span) (t : ℤ) (c rest den : Nat) : Option Decimal :=
  match s.holds c t, s.holds (c + 1) t with
  | true, true =>
      if 2 * rest < den || (2 * rest == den && c % 2 == 0) then some ⟨c, t⟩ else some ⟨c + 1, t⟩
  | true, false => some ⟨c, t⟩
  | false, true => some ⟨c + 1, t⟩
  | false, false => none

theorem exists_onGrid_eq (rank : Nat) (t : ℤ) :
    ∃ c rest den, Beside rank t c rest den ∧ onGrid? rank t = pick? (span rank) t c rest den :=
  ⟨_, _, _, beside rank t, rfl⟩

theorem takes_of_pick {rank c rest den : Nat} {t : ℤ} {d : Decimal}
    (hbeside : Beside rank t c rest den) (hrounds : RoundsTo d.value rank)
    (h : pick? (span rank) t c rest den = some d) : Takes rank t c d := by
  have hlow := abs_of_nonpos (sub_nonpos.mpr hbeside.le)
  have hhigh := abs_of_pos (sub_pos.mpr hbeside.lt)
  have hnearer := hbeside.nearer
  unfold pick? at h
  split at h
  next hbelow habove =>
      split at h
      next hless =>
          cases h
          simp only [Bool.or_eq_true, decide_eq_true_eq, Bool.and_eq_true, beq_iff_eq] at hless
          refine ⟨.inl rfl, hrounds, fun _ => le_rfl, fun _ => ?_⟩
          rw [hhigh]
          exact hlow.le.trans ((neg_sub _ _).le.trans (hnearer.1 (by omega)))
      next hmore =>
          cases h
          simp only [Bool.or_eq_true, decide_eq_true_eq, Bool.and_eq_true, beq_iff_eq] at hmore
          refine ⟨.inr rfl, hrounds, fun _ => ?_, fun _ => le_rfl⟩
          rw [hlow, neg_sub]
          exact hhigh.le.trans (hnearer.2 (by omega))
  next hbelow habove =>
      cases h
      exact ⟨.inl rfl, hrounds, fun _ => le_rfl,
        fun hround => absurd hround (holds_eq_false_iff.mp habove)⟩
  next hbelow habove =>
      cases h
      exact ⟨.inr rfl, hrounds, fun hround => absurd hround (holds_eq_false_iff.mp hbelow),
        fun _ => le_rfl⟩
  · cases h

theorem exists_of_onGrid {rank : Nat} (hrank : 0 < rank) {t : ℤ} {y : ℚ} (hy : OnGrid t y)
    (hround : RoundsTo y rank) : ∃ d, onGrid? rank t = some d := by
  rcases exists_onGrid_eq rank t with ⟨c, rest, den, hbeside, heq⟩
  rw [heq]
  unfold pick?
  split
  · split <;> exact ⟨_, rfl⟩
  · exact ⟨_, rfl⟩
  · exact ⟨_, rfl⟩
  next hbelow habove =>
      rcases hbeside.exists_nearer hrank hy hround with ⟨hfound, -⟩ | ⟨hfound, -⟩
      · exact absurd hfound (holds_eq_false_iff.mp hbelow)
      · exact absurd hfound (holds_eq_false_iff.mp habove)

/-! # Where the search ends -/

theorem lt_pow_leadingExponent {num den : Nat} (hnum : 0 < num) (hden : 0 < den) :
    (num : ℚ) < 10 ^ (leadingExponent num den + 1) * den := by
  rw [leadingExponent]
  split
  next hlarge =>
      have hlt := lt_pow_digitCount (num / den)
      rw [Nat.div_lt_iff_lt_mul hden] at hlt
      rw [sub_add_cancel, zpow_natCast]
      exact_mod_cast hlt
  next hsmall =>
      have hquotient : (den - 1) / num ≠ 0 :=
        Nat.ne_of_gt (Nat.div_pos (by omega) hnum)
      have hexponent : -(digitCount ((den - 1) / num) : ℤ) + 1 =
          -(digitCount ((den - 1) / num) - 1 : Nat) := by
        have := digitCount_pos ((den - 1) / num)
        omega
      have hle : 10 ^ (digitCount ((den - 1) / num) - 1) * num ≤ den - 1 :=
        (Nat.mul_le_mul_right num (pow_digitCount_le hquotient)).trans (Nat.div_mul_le_self _ _)
      have hlt : 10 ^ (digitCount ((den - 1) / num) - 1) * num < den := by omega
      rw [hexponent, zpow_neg, zpow_natCast, inv_mul_eq_div, lt_div_iff₀ (by positivity), mul_comm]
      exact_mod_cast hlt

def lead (rank : Nat) : ℤ :=
  leadingExponent (units rank) one

theorem pow_lead_le {rank : Nat} (h : 0 < rank) : (10 : ℚ) ^ lead rank ≤ size rank := by
  rw [size, le_div_iff₀ one_pos_rat]
  exact pow_leadingExponent_le (units_pos h) one_pos

theorem lt_pow_lead {rank : Nat} (h : 0 < rank) : size rank < (10 : ℚ) ^ (lead rank + 1) := by
  rw [size, div_lt_iff₀ one_pos_rat]
  exact lt_pow_leadingExponent (units_pos h) one_pos

end Binary64

namespace Decimal

open Binary64

theorem dropZeros_eq_self {d : Decimal} (h : d.coefficient % 10 ≠ 0) (fuel : Nat) :
    d.dropZeros fuel = d := by
  cases fuel with
  | zero => rfl
  | succ fuel =>
      have hstop : (d.coefficient != 0 && d.coefficient % 10 == 0) = false := by
        rw [Bool.and_eq_false_iff]
        exact .inr (beq_eq_false_iff_ne.mpr h)
      rw [dropZeros, hstop, if_neg Bool.false_ne_true]

theorem dropZeros_ten (t : ℤ) (fuel : Nat) : dropZeros (fuel + 1) ⟨10, t⟩ = ⟨1, t + 1⟩ := by
  have hone : dropZeros fuel ⟨1, t + 1⟩ = ⟨1, t + 1⟩ := by
    refine dropZeros_eq_self ?_ fuel
    exact Nat.one_ne_zero
  rw [dropZeros]
  dsimp only
  rw [if_pos (by decide)]
  exact hone

theorem pointAt_eq {d : Decimal} {e : ℤ} (hlow : (10 : ℚ) ^ e ≤ d.value)
    (hhigh : d.value < (10 : ℚ) ^ (e + 1)) : d.pointAt = e + 1 := by
  have hten : (1 : ℚ) < 10 := by norm_num
  have hne : d.coefficient ≠ 0 := coefficient_ne_zero ((ten_zpow_pos e).trans_le hlow)
  have hbelow := (zpow_lt_zpow_iff_right₀ hten).mp (hlow.trans_lt d.value_lt)
  have habove := (zpow_lt_zpow_iff_right₀ hten).mp ((le_value hne).trans_lt hhigh)
  omega

end Decimal

namespace Binary64

theorem pow_le_of_between {c : Nat} {x : ℚ} {t e : ℤ} (hte : t ≤ e) (hle : c * (10 : ℚ) ^ t ≤ x)
    (hlt : x < ((c + 1 : Nat) : ℚ) * 10 ^ t) (hlow : (10 : ℚ) ^ e ≤ x)
    (hhigh : x < (10 : ℚ) ^ (e + 1)) :
    (10 : ℚ) ^ e ≤ c * 10 ^ t ∧ ((c + 1 : Nat) : ℚ) * 10 ^ t ≤ 10 ^ (e + 1) := by
  have hstep := ten_zpow_pos t
  rcases Int.le.dest hte with ⟨m, rfl⟩
  have hpow (n : Nat) : (10 : ℚ) ^ (t + n) = ((10 ^ n : Nat) : ℚ) * 10 ^ t := by
    rw [add_comm, zpow_add₀ (by norm_num), zpow_natCast]
    push_cast
    rfl
  rw [add_assoc, ← Nat.cast_succ] at hhigh ⊢
  rw [hpow] at hlow hhigh
  rw [hpow, hpow]
  have hbelow : 10 ^ m < c + 1 := by
    exact_mod_cast lt_of_mul_lt_mul_right (hlow.trans_lt hlt) hstep.le
  have habove : c < 10 ^ (m + 1) := by
    exact_mod_cast lt_of_mul_lt_mul_right (hle.trans_lt hhigh) hstep.le
  constructor
  · exact mul_le_mul_of_nonneg_right (by exact_mod_cast Nat.le_of_lt_succ hbelow) hstep.le
  · exact mul_le_mul_of_nonneg_right (by exact_mod_cast habove) hstep.le

theorem Takes.reach {rank c rest den : Nat} {t : ℤ} {d : Decimal} (hrank : 0 < rank)
    (hbeside : Beside rank t c rest den) (h : Takes rank t c d) (ht : t ≤ lead rank) :
    (10 : ℚ) ^ lead rank ≤ d.value ∧ d.value ≤ (10 : ℚ) ^ (lead rank + 1) := by
  rcases pow_le_of_between ht hbeside.le hbeside.lt (pow_lead_le hrank) (lt_pow_lead hrank) with
    ⟨hlow, hhigh⟩
  have hnext : (c : ℚ) * 10 ^ t ≤ ((c + 1 : Nat) : ℚ) * 10 ^ t :=
    mul_le_mul_of_nonneg_right (by exact_mod_cast Nat.le_succ c) (ten_zpow_pos t).le
  rcases h.point with rfl | rfl
  · exact ⟨hlow, hnext.trans hhigh⟩
  · exact ⟨hlow.trans hnext, hhigh⟩

/-- The number that a search ends on, against the grids that were searched for it. -/
structure Best (rank : Nat) (t : ℤ) (y : ℚ) : Prop where
  le_lead : t ≤ lead rank
  rounds : RoundsTo y rank
  nearest : ∀ x, OnGrid t x → RoundsTo x rank → |y - size rank| ≤ |x - size rank|
  coarser : ∀ s, t < s → s ≤ lead rank → ∀ x, OnGrid s x → ¬ RoundsTo x rank
  pow_le : (10 : ℚ) ^ lead rank ≤ y
  le_pow : y ≤ (10 : ℚ) ^ (lead rank + 1)

theorem exists_best {rank : Nat} (hrank : 0 < rank) :
    ∃ t, Best rank t (searchGrids rank 17 (lead rank)).value ∧
      (searchGrids rank 17 (lead rank)).exponent = t := by
  have hlast : ∃ i < 17, (onGrid? rank (lead rank - (i : Nat))).isSome = true :=
    ⟨16, by norm_num, isSome_lastGrid hrank⟩
  rcases exists_grid hlast with ⟨t, ht, hfirst, hnone⟩
  generalize searchGrids rank 17 (lead rank) = d at hfirst ⊢
  rcases exists_onGrid_eq rank t with ⟨c, rest, den, hbeside, heq⟩
  have htakes := takes_of_pick hbeside (has_onGrid hfirst) (heq ▸ hfirst)
  rcases htakes.reach hrank hbeside ht with ⟨hlow, hhigh⟩
  refine ⟨t, ⟨ht, htakes.rounds, ?_, ?_, hlow, hhigh⟩, ?_⟩
  · intro x hx hround
    rcases hbeside.exists_nearer hrank hx hround with ⟨hfound, hle⟩ | ⟨hfound, hle⟩
    · exact (htakes.below hfound).trans hle
    · exact (htakes.above hfound).trans hle
  · intro s hlt hle x hx hround
    rcases exists_of_onGrid hrank hx hround with ⟨other, hother⟩
    cases (hnone s hlt hle).symm.trans hother
  · rcases htakes.point with rfl | rfl <;> rfl

/-- The digits that a search leads to, one for each grid that was searched. -/
structure Found (rank : Nat) (t : ℤ) (d : Decimal) : Prop extends Best rank t d.value where
  trimmed : d.coefficient % 10 ≠ 0
  le_exponent : t ≤ d.exponent
  length : (d.digits.length : ℤ) = lead rank - t + 1

section Ends

variable {rank : Nat} {t : ℤ} {d : Decimal} (hbest : Best rank t d.value)
  (hexponent : d.exponent = t)

include hbest hexponent

theorem found_of_trimmed (htrimmed : d.coefficient % 10 ≠ 0) : Found rank t d := by
  refine ⟨hbest, htrimmed, hexponent.ge, ?_⟩
  have hstrict : d.value < (10 : ℚ) ^ (lead rank + 1) := by
    refine lt_of_le_of_ne hbest.le_pow fun hpower => htrimmed ?_
    rcases Int.le.dest hbest.le_lead with ⟨m, hm⟩
    rw [Decimal.value, hexponent, ← hm, add_assoc, add_comm t, zpow_add₀ (by norm_num)] at hpower
    have hcoefficient := mul_right_cancel₀ (ten_zpow_pos t).ne' hpower
    rw [← Nat.cast_succ, zpow_natCast] at hcoefficient
    have : d.coefficient = 10 ^ (m + 1) := by exact_mod_cast hcoefficient
    rw [this, Nat.pow_succ, Nat.mul_mod_left]
  have hpoint := Decimal.pointAt_eq hbest.pow_le hstrict
  rw [Decimal.pointAt, hexponent] at hpoint
  omega

theorem eq_ten_of_trailing (hzero : d.coefficient % 10 = 0) :
    t = lead rank ∧ d.coefficient = 10 := by
  have hten : d.value = ((d.coefficient / 10 : Nat) : ℚ) * 10 ^ (t + 1) := by
    have hsplit : d.coefficient = 10 * (d.coefficient / 10) := by omega
    rw [Decimal.value, hexponent, zpow_add_one₀ (by norm_num)]
    nth_rewrite 1 [hsplit]
    push_cast
    ring
  have hlead : t = lead rank := by
    by_contra hne
    have hlt := lt_of_le_of_ne hbest.le_lead hne
    exact hbest.coarser (t + 1) (lt_add_one t) (by omega) d.value ⟨_, hten⟩ hbest.rounds
  refine ⟨hlead, ?_⟩
  have hlow := hbest.pow_le
  have hhigh := hbest.le_pow
  rw [Decimal.value, hexponent, ← hlead] at hlow hhigh
  rw [le_mul_iff_one_le_left (ten_zpow_pos t)] at hlow
  rw [zpow_add_one₀ (by norm_num), mul_comm _ (10 : ℚ)] at hhigh
  have hpos : 1 ≤ d.coefficient := by exact_mod_cast hlow
  have hle : d.coefficient ≤ 10 := by
    exact_mod_cast le_of_mul_le_mul_right hhigh (ten_zpow_pos t)
  omega

theorem found_of_trailing (hzero : d.coefficient % 10 = 0) : Found rank t (d.dropZeros 20) := by
  rcases eq_ten_of_trailing hbest hexponent hzero with ⟨hlead, hcoefficient⟩
  have hbest' : Best rank t (d.dropZeros 20).value := by
    rw [Decimal.value_dropZeros]
    exact hbest
  have hdrop : d.dropZeros 20 = ⟨1, t + 1⟩ := by
    rw [show d = ⟨10, t⟩ from by rw [← hcoefficient, ← hexponent], Decimal.dropZeros_ten]
  refine ⟨hbest', ?_, ?_, ?_⟩ <;> rw [hdrop]
  · exact Nat.one_ne_zero
  · exact (lt_add_one t).le
  · have hone : (Text.decimal 1).length = 1 := by decide
    rw [← hlead, sub_self, Decimal.digits, hone]
    rfl

end Ends

theorem exists_found {rank : Nat} (hrank : 0 < rank) : ∃ t, Found rank t (shortest rank) := by
  rcases exists_best hrank with ⟨t, hbest, hexponent⟩
  refine ⟨t, ?_⟩
  change Found rank t (Decimal.dropZeros 20 (searchGrids rank 17 (lead rank)))
  by_cases hzero : (searchGrids rank 17 (lead rank)).coefficient % 10 = 0
  · exact found_of_trailing hbest hexponent hzero
  · rw [Decimal.dropZeros_eq_self hzero]
    exact found_of_trimmed hbest hexponent hzero

/-! # Shortest digits -/

theorem Found.competitor {rank : Nat} {t : ℤ} {d other : Decimal} (h : Found rank t d)
    (hrank : 0 < rank) (hround : RoundsTo other.value rank) :
    d.digits.length ≤ other.digits.length ∧
      (other.digits.length = d.digits.length → |d.value - size rank| ≤ |other.value - size rank|) := by
  have hten : (1 : ℚ) < 10 := by norm_num
  have hlength := h.length
  have hpos : 0 < other.digits.length := digitCount_pos other.coefficient
  have hle := pow_lead_le hrank
  rcases lt_or_ge other.value ((10 : ℚ) ^ lead rank) with hsmall | hlarge
  · -- Then the power of ten in between has the one digit that is found.
    have hpower : RoundsTo ((10 : ℚ) ^ lead rank) rank :=
      hround.between (roundsTo_size hrank) hsmall.le hle
    have hgrid : OnGrid (lead rank) ((10 : ℚ) ^ lead rank) := ⟨1, by rw [Nat.cast_one, one_mul]⟩
    have ht : t = lead rank := by
      by_contra hne
      exact h.coarser (lead rank) (lt_of_le_of_ne h.le_lead hne) le_rfl _ hgrid hpower
    have hnearest := h.nearest _ (hgrid.mono h.le_lead) hpower
    refine ⟨by omega, fun _ => hnearest.trans ?_⟩
    rw [abs_of_nonpos (sub_nonpos.mpr hle), abs_of_nonpos (sub_nonpos.mpr (hsmall.le.trans hle))]
    linarith
  · have hpoint := (zpow_lt_zpow_iff_right₀ hten).mp (hlarge.trans_lt other.value_lt)
    rw [Decimal.pointAt] at hpoint
    constructor
    · by_contra hfewer
      exact h.coarser (min other.exponent (lead rank)) (lt_min (by omega) (by omega))
        (min_le_right _ _) other.value
        ((onGrid_value other).mono (min_le_left _ _)) hround
    · intro hsame
      exact h.nearest _ ((onGrid_value other).mono (by omega)) hround

/--
Whether a decimal is the shortest text of a double: it is read as the double and ends in no zero,
no decimal with fewer digits is read so, and none with as many digits is nearer.
-/
structure IsShortest (rank : Fin finiteRanks) (d : Decimal) : Prop where
  reads : ∀ negative, d.toBinary negative = .finite negative rank
  trimmed : d.coefficient % 10 ≠ 0
  fewest : ∀ negative (other : Decimal), other.toBinary negative = .finite negative rank →
    d.digits.length ≤ other.digits.length
  nearest : ∀ negative (other : Decimal), other.toBinary negative = .finite negative rank →
    other.digits.length = d.digits.length → |d.value - size rank| ≤ |other.value - size rank|

theorem isShortest_shortest {rank : Fin finiteRanks} (hrank : 0 < rank.val) :
    IsShortest rank (shortest rank) := by
  rcases exists_found hrank with ⟨t, h⟩
  refine ⟨fun negative => (toBinary_eq_iff hrank).mpr h.rounds, h.trimmed, ?_, ?_⟩
  · intro negative other hother
    exact (h.competitor hrank ((toBinary_eq_iff hrank).mp hother)).1
  · intro negative other hother
    exact (h.competitor hrank ((toBinary_eq_iff hrank).mp hother)).2

end Binary64
end Stencil
