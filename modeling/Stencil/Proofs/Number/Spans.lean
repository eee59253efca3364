import Mathlib
import Stencil.Proofs.Number.Remainder

/-!
# What is read as a double

A decimal is read as a double exactly if it lies in the double's span: every quotient lies in the
span of some double, and what lies in a span is rounded to its double. A span reaches no further
than to the doubles on either side.
-/

namespace Stencil
namespace Binary64

/-! # What is read as a double -/

def size (rank : Nat) : ℚ := units rank / one

def RoundsTo (y : ℚ) (rank : Nat) : Prop :=
  (span rank).Has (y * one)

theorem one_pos_rat : (0 : ℚ) < one := by
  exact_mod_cast one_pos

theorem size_mul_one (rank : Nat) : size rank * one = units rank :=
  div_mul_cancel₀ _ one_pos_rat.ne'

theorem size_pos {rank : Nat} (h : 0 < rank) : 0 < size rank :=
  div_pos (by exact_mod_cast units_pos h) one_pos_rat

theorem lt_of_mul_one_lt {x y : ℚ} (h : x * one < y * one) : x < y :=
  lt_of_mul_lt_mul_right h one_pos_rat.le

theorem roundsTo_size {rank : Nat} (h : 0 < rank) : RoundsTo (size rank) rank := by
  have hbelow : (units (rank - 1) : ℚ) < units rank := by
    exact_mod_cast strictMono_units (Nat.sub_lt h Nat.one_pos)
  have habove : (units rank : ℚ) < units (rank + 1) := by
    exact_mod_cast units_lt_succ rank
  have hlow : ((span rank).low : ℚ) = units (rank - 1) + units rank := by
    exact_mod_cast rfl
  have hhigh : ((span rank).high : ℚ) = units rank + units (rank + 1) := by
    exact_mod_cast rfl
  rw [RoundsTo, size_mul_one]
  constructor
  · linarith
  · linarith
  · intro _
    constructor <;> linarith

theorem RoundsTo.between {x y z : ℚ} {rank : Nat} (hx : RoundsTo x rank) (hz : RoundsTo z rank)
    (hxy : x ≤ y) (hyz : y ≤ z) : RoundsTo y rank := by
  have hlow := mul_le_mul_of_nonneg_right hxy one_pos_rat.le
  have hhigh := mul_le_mul_of_nonneg_right hyz one_pos_rat.le
  constructor
  · linarith [hx.low]
  · linarith [hz.high]
  · intro hopen
    constructor
    · linarith [(hx.inside hopen).1]
    · linarith [(hz.inside hopen).2]

theorem RoundsTo.lt_size {y : ℚ} {rank other : Nat} (h : RoundsTo y rank) (hlt : rank < other) :
    y < size other := by
  have hstep : (units rank : ℚ) < units (rank + 1) := by
    exact_mod_cast units_lt_succ rank
  have hle : (units (rank + 1) : ℚ) ≤ units other := by
    exact_mod_cast strictMono_units.monotone hlt
  have hhigh : ((span rank).high : ℚ) = units rank + units (rank + 1) := by
    exact_mod_cast rfl
  refine lt_of_mul_one_lt ?_
  rw [size_mul_one]
  linarith [h.high]

theorem RoundsTo.size_lt {y : ℚ} {rank other : Nat} (h : RoundsTo y rank) (hlt : other < rank) :
    size other < y := by
  have hstep : (units (rank - 1) : ℚ) < units rank := by
    exact_mod_cast strictMono_units (Nat.sub_lt (Nat.zero_lt_of_lt hlt) Nat.one_pos)
  have hle : (units other : ℚ) ≤ units (rank - 1) := by
    exact_mod_cast strictMono_units.monotone (Nat.le_sub_one_of_lt hlt)
  have hlow : ((span rank).low : ℚ) = units (rank - 1) + units rank := by
    exact_mod_cast rfl
  refine lt_of_mul_one_lt ?_
  rw [size_mul_one]
  linarith [h.low]

theorem RoundsTo.eq_of_size {rank other : Nat} (h : RoundsTo (size other) rank) : rank = other := by
  rcases Nat.lt_trichotomy rank other with hlt | heq | hlt
  · exact absurd (h.lt_size hlt) (lt_irrefl _)
  · exact heq
  · exact absurd (h.size_lt hlt) (lt_irrefl _)

/-! # Reading -/

theorem exists_between (num : Nat) {den : Nat} (hden : 0 < den) :
    ∃ rank, units rank * den ≤ num ∧ num < units (rank + 1) * den := by
  have hsome : ∃ n, num < units n * den := by
    refine ⟨num + 1, ?_⟩
    have hself : num + 1 ≤ units (num + 1) := strictMono_units.le_apply
    calc
      num < units (num + 1) := hself
      _ ≤ units (num + 1) * den := Nat.le_mul_of_pos_right _ hden
  classical
  have hfirst := Nat.find_spec hsome
  have hbefore : ∀ m, m < Nat.find hsome → ¬ num < units m * den := fun m => Nat.find_min hsome
  generalize Nat.find hsome = n at hfirst hbefore
  cases n with
  | zero =>
      rw [show units 0 = 0 from rfl, Nat.zero_mul] at hfirst
      exact absurd hfirst (Nat.not_lt_zero _)
  | succ rank => exact ⟨rank, not_lt.mp (hbefore rank (Nat.lt_succ_self rank)), hfirst⟩

theorem exists_around (num : Nat) {den : Nat} (hden : 0 < den) :
    ∃ rank, (span rank).Around num den := by
  rcases exists_between num hden with ⟨rank, hlow, hhigh⟩
  have hbelow : 0 < rank → units (rank - 1) * den < units rank * den := fun h =>
    Nat.mul_lt_mul_of_pos_right (strictMono_units (Nat.sub_lt h Nat.one_pos)) hden
  have hbelow' : units (rank - 1) * den ≤ units rank * den :=
    Nat.mul_le_mul_right _ (strictMono_units.monotone (Nat.sub_le rank 1))
  have habove : units (rank + 1) * den < units (rank + 2) * den :=
    Nat.mul_lt_mul_of_pos_right (units_lt_succ _) hden
  have hlower : (span rank).low * den = units (rank - 1) * den + units rank * den := by
    rw [← Nat.add_mul]
    rfl
  have hmiddle : (span rank).high * den = units rank * den + units (rank + 1) * den := by
    rw [← Nat.add_mul]
    rfl
  have hmiddle' : (span (rank + 1)).low * den = units rank * den + units (rank + 1) * den := by
    rw [← Nat.add_mul]
    rfl
  have hupper : (span (rank + 1)).high * den =
      units (rank + 1) * den + units (rank + 2) * den := by
    rw [← Nat.add_mul]
    rfl
  have hclosed : (span rank).closed = (rank % 2 == 0) := rfl
  have hclosed' : (span (rank + 1)).closed = ((rank + 1) % 2 == 0) := rfl
  by_cases hnear : 2 * num < units rank * den + units (rank + 1) * den ∨
      2 * num = units rank * den + units (rank + 1) * den ∧ rank % 2 = 0
  · refine ⟨rank, by omega, by omega, fun hopen => ?_⟩
    rw [hclosed, beq_eq_false_iff_ne] at hopen
    have := hbelow (by omega)
    omega
  · refine ⟨rank + 1, by omega, by omega, fun hopen => ?_⟩
    rw [hclosed', beq_eq_false_iff_ne] at hopen
    omega

theorem around_of_nearestRank {num den rank : Nat} (hden : 0 < den) (hrank : 0 < rank)
    (h : nearestRank num den = rank) : (span rank).Around num den := by
  rcases exists_around num hden with ⟨found, hfound⟩
  rcases Nat.eq_zero_or_pos found with rfl | hpos
  · -- What is rounded to zero is rounded to nothing else.
    have hhigh : 2 * num ≤ (2 * 0 + 1) * 2 ^ 0 * den := hfound.high
    have hzero : nearestRank num den = 0 * binade + 0 :=
      nearestRank_of_steps hden (Nat.zero_le _) (.inl rfl)
        (div_lt_of_around hden (Nat.mul_pos Nat.two_pos binade_pos) hhigh) (by simp) hhigh (by simp)
    omega
  · rwa [← h, nearestRank_of_around hden hpos hfound]

theorem toBinary_eq_iff {d : Decimal} {negative : Bool} {rank : Fin finiteRanks}
    (hrank : 0 < rank.val) :
    d.toBinary negative = .finite negative rank ↔ RoundsTo d.value rank := by
  constructor
  · intro h
    have hden : 0 < 10 ^ (-d.exponent).toNat := Nat.pow_pos (by norm_num)
    rw [Decimal.toBinary] at h
    split_ifs at h with hzero hupper hlower
    · cases h
      exact absurd hrank (lt_irrefl _)
    · cases h
      exact absurd hrank (lt_irrefl _)
    · change ofRank negative (nearestRank (d.coefficient * one * 10 ^ d.exponent.toNat)
        (10 ^ (-d.exponent).toNat)) = _ at h
      rw [ofRank] at h
      split at h
      · have hnearest : nearestRank (d.coefficient * one * 10 ^ d.exponent.toNat)
            (10 ^ (-d.exponent).toNat) = rank.val := by
          injection h with _ hrank'
          exact congrArg Fin.val hrank'
        rw [RoundsTo, value_mul_one, Span.has_div_iff hden]
        exact around_of_nearestRank hden hrank hnearest
      · cases h
  · intro h
    exact toBinary_of_has hrank rank.isLt h negative

end Binary64
end Stencil
