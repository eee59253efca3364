import Mathlib
import Stencil.Number.Arithmetic
import Stencil.Proofs.Number.Shortest

/-!
# Remainders of integers

The remainder of two integers is taken between the doubles nearest to them. These are integers
again, and the remainder of two doubles is a double, so nothing is rounded after that: the result
is the exact remainder of the two rounded integers. It is the remainder of the integers themselves
if both of them are doubles.
-/

namespace Stencil

namespace Binary64

/-! # Doubles in order -/

theorem units_lt_succ (rank : Nat) : units rank < units (rank + 1) := by
  rcases exists_steps rank with ⟨scale, steps, rfl, hsteps, hscale⟩
  rw [Nat.add_assoc, units_steps (by omega) hscale, units_steps (by omega) (by omega)]
  exact Nat.mul_lt_mul_of_pos_right (Nat.lt_succ_self steps) (Nat.two_pow_pos scale)

theorem strictMono_units : StrictMono units :=
  strictMono_nat_of_lt_succ units_lt_succ

theorem nearestRank_units (rank : Nat) : nearestRank (units rank) 1 = rank := by
  rcases Nat.eq_zero_or_pos rank with rfl | hpos
  · rfl
  · have hbelow : units (rank - 1) < units rank := strictMono_units (by omega)
    have habove := units_lt_succ rank
    have hlow : (span rank).low = units (rank - 1) + units rank := rfl
    have hhigh : (span rank).high = units rank + units (rank + 1) := rfl
    refine nearestRank_of_around Nat.one_pos hpos ⟨?_, ?_, fun _ => ?_⟩
    · omega
    · omega
    · omega

theorem exists_units {steps : Nat} (h : steps < 2 * binade) (scale : Nat) :
    ∃ rank, units rank = steps * 2 ^ scale := by
  induction scale generalizing steps with
  | zero => exact ⟨0 * binade + steps, units_steps h.le (.inl rfl)⟩
  | succ scale ih =>
      rcases Nat.lt_or_ge steps binade with hsmall | hlarge
      · have hdouble : 2 * steps < 2 * binade := by omega
        rcases ih hdouble with ⟨rank, hrank⟩
        refine ⟨rank, ?_⟩
        rw [hrank, Nat.pow_succ]
        ring
      · exact ⟨(scale + 1) * binade + steps, units_steps h.le (.inr hlarge)⟩

theorem units_nearestRank {steps : Nat} (h : steps < 2 * binade) (scale : Nat) :
    units (nearestRank (steps * 2 ^ scale) 1) = steps * 2 ^ scale := by
  rcases exists_units h scale with ⟨rank, hrank⟩
  rw [← hrank, nearestRank_units]

theorem exists_units_mod (a : Nat) {b : Nat} (hb : 0 < b) :
    ∃ rank, units rank = units a % units b := by
  have hpos := units_pos hb
  rcases exists_steps a with ⟨scale, steps, rfl, hsteps, hscale⟩
  rcases exists_steps b with ⟨scale', steps', rfl, hsteps', hscale'⟩
  rw [units_steps hsteps.le hscale]
  rw [units_steps hsteps'.le hscale'] at hpos ⊢
  rcases Nat.le_total scale' scale with hle | hle
  · rcases Nat.exists_eq_add_of_le hle with ⟨more, rfl⟩
    have hsplit : steps * 2 ^ (scale' + more) = steps * 2 ^ more * 2 ^ scale' := by ring
    have hmod := Nat.mod_lt (steps * 2 ^ more) (Nat.pos_of_mul_pos_right hpos)
    rw [hsplit, Nat.mul_mod_mul_right]
    exact exists_units (hmod.trans hsteps') scale'
  · rcases Nat.exists_eq_add_of_le hle with ⟨more, rfl⟩
    have hsplit : steps' * 2 ^ (scale + more) = steps' * 2 ^ more * 2 ^ scale := by ring
    rw [hsplit, Nat.mul_mod_mul_right]
    exact exists_units ((Nat.mod_le _ _).trans_lt hsteps) scale

/-! # Integers as doubles -/

theorem roundQuotient_mem (num den : Nat) :
    num / den ≤ roundQuotient num den ∧ roundQuotient num den ≤ num / den + 1 := by
  rw [roundQuotient]
  split <;> omega

theorem exists_whole (n : Nat) :
    ∃ whole, units (nearestRank (n * one) 1) = whole * one ∧ (0 < n → 0 < whole) := by
  obtain ⟨k, hk⟩ : ∃ k, 1074 = k := ⟨_, rfl⟩
  rw [one_eq hk]
  rcases Nat.eq_zero_or_pos n with rfl | hpos
  · exact ⟨0, by rw [Nat.zero_mul]; rfl, id⟩
  · have hnum : n * 2 ^ k ≠ 0 := Nat.mul_ne_zero hpos.ne' (Nat.two_pow_pos k).ne'
    have hbelow := (Nat.log2_lt hnum).mp (Nat.lt_succ_self (n * 2 ^ k).log2)
    have habove := (Nat.le_log2 hnum).mp (Nat.le_refl (n * 2 ^ k).log2)
    have hbinade : 2 * binade = 2 ^ 53 := rfl
    generalize hscale : (n * 2 ^ k).log2 - 52 = scale
    have hhigh : n * 2 ^ k < 2 * binade * 2 ^ scale := by
      rw [hbinade, ← Nat.pow_add]
      exact hbelow.trans_le (Nat.pow_le_pow_right (by norm_num) (by omega))
    rcases Nat.le_total scale k with hfine | hcoarse
    · -- The step divides the integer, so that nothing is rounded.
      have hsplit : n * 2 ^ k = n * 2 ^ (k - scale) * 2 ^ scale := by
        rw [Nat.mul_assoc, ← Nat.pow_add, Nat.sub_add_cancel hfine]
      refine ⟨n, ?_, id⟩
      rw [hsplit] at hhigh ⊢
      exact units_nearestRank (Nat.lt_of_mul_lt_mul_right hhigh) scale
    · have hlow : binade * 2 ^ scale ≤ n * 2 ^ k := by
        have hpow : binade * 2 ^ scale = 2 ^ (52 + scale) := by
          rw [Nat.pow_add]
          rfl
        rw [hpow]
        exact (Nat.pow_le_pow_right (by norm_num) (by omega)).trans habove
      have hsteps : binade ≤ n * 2 ^ k / (1 * 2 ^ scale) := by
        rwa [Nat.one_mul, Nat.le_div_iff_mul_le (Nat.two_pow_pos scale)]
      have hsteps' : n * 2 ^ k / (1 * 2 ^ scale) < 2 * binade := by
        rwa [Nat.one_mul, Nat.div_lt_iff_lt_mul (Nat.two_pow_pos scale)]
      have hround := roundQuotient_mem (n * 2 ^ k) (1 * 2 ^ scale)
      rcases Nat.exists_eq_add_of_le hcoarse with ⟨more, rfl⟩
      rw [← Nat.div_one (n * 2 ^ k)] at hlow hhigh
      rw [nearestRank_of_scale (.inr hlow) hhigh, units_steps (by omega) (.inr (by omega))]
      refine ⟨roundQuotient (n * 2 ^ k) (1 * 2 ^ (k + more)) * 2 ^ more, by ring, fun _ => ?_⟩
      have hbinade' := binade_pos
      exact Nat.mul_pos (by omega) (Nat.two_pow_pos more)

/-- The integer that an integer becomes as a double, unless it is too large for one. -/
def wholeNear? (n : Int) : Option Int :=
  (ofInt? n).bind toInt?

def signed (n : Int) (whole : Nat) : Int :=
  if n < 0 then -whole else whole

theorem signed_natAbs (n : Int) : signed n n.natAbs = n := by
  unfold signed
  split <;> omega

theorem ofInt?_eq (n : Int) :
    ofInt? n =
      if h : nearestRank (n.natAbs * one) 1 < finiteRanks then
        some (finite (decide (n < 0)) ⟨nearestRank (n.natAbs * one) 1, h⟩)
      else none := by
  rw [ofInt?, ofUnits]
  generalize nearestRank (n.natAbs * one) 1 = rank
  rw [ofRank]
  by_cases h : rank < finiteRanks
  · rw [dif_pos h, dif_pos h]
    rfl
  · rw [dif_neg h, dif_neg h]
    rfl

theorem whole_mod_one (whole : Nat) : whole * one % one = 0 :=
  Nat.mul_mod_left whole one

theorem whole_div_one (whole : Nat) : whole * one / one = whole := by
  have hpos := one_pos
  generalize one = unit at hpos ⊢
  exact Nat.mul_div_cancel whole hpos

theorem ofInt?_cases (n : Int) :
    (ofInt? n = none ∧ wholeNear? n = none) ∨
      ∃ (rank : Fin finiteRanks) (whole : Nat),
        ofInt? n = some (finite (decide (n < 0)) rank) ∧ wholeNear? n = some (signed n whole) ∧
          rank.val = nearestRank (n.natAbs * one) 1 ∧ units rank = whole * one ∧
          (n ≠ 0 → 0 < whole) := by
  rw [wholeNear?, ofInt?_eq]
  by_cases h : nearestRank (n.natAbs * one) 1 < finiteRanks
  · rcases exists_whole n.natAbs with ⟨whole, hwhole, hpos⟩
    refine .inr ⟨⟨_, h⟩, whole, dif_pos h, ?_, rfl, hwhole, fun hn => hpos (Int.natAbs_pos.mpr hn)⟩
    rw [dif_pos h, Option.bind_some]
    simp only [toInt?, hwhole, whole_mod_one, whole_div_one, signed, beq_self_eq_true, if_true,
      decide_eq_true_eq]
  · rw [dif_neg h]
    exact .inl ⟨rfl, rfl⟩

/-- Whether an integer is a double: few binary digits, with not too many zeros behind them. -/
def IsDouble (n : Int) : Prop :=
  ∃ steps scale, n.natAbs = steps * 2 ^ scale ∧ steps < 2 ^ 53 ∧ scale ≤ 971

theorem isDouble_of_natAbs_lt {n : Int} (h : n.natAbs < 2 ^ 53) : IsDouble n :=
  ⟨n.natAbs, 0, by rw [Nat.pow_zero, Nat.mul_one], h, Nat.zero_le _⟩

theorem units_finiteRanks {scale : Nat} (h : 2046 = scale) :
    units finiteRanks = binade * 2 ^ scale := by
  have hranks : finiteRanks = scale * binade + binade := by
    rw [← h]
    rfl
  rw [hranks, units_steps (by omega) (.inr (Nat.le_refl _))]

theorem IsDouble.wholeNear?_eq {n : Int} (h : IsDouble n) : wholeNear? n = some n := by
  rcases h with ⟨steps, scale, hn, hsteps, hscale⟩
  obtain ⟨k, hk⟩ : ∃ k, 1074 = k := ⟨_, rfl⟩
  obtain ⟨last, hlast⟩ : ∃ last, 2046 = last := ⟨_, rfl⟩
  have hunits : n.natAbs * one = steps * 2 ^ (scale + k) := by
    rw [hn, one_eq hk, Nat.mul_assoc, ← Nat.pow_add]
  have hexact : units (nearestRank (n.natAbs * one) 1) = n.natAbs * one := by
    rw [hunits]
    exact units_nearestRank hsteps _
  have hfinite : nearestRank (n.natAbs * one) 1 < finiteRanks := by
    rw [← strictMono_units.lt_iff_lt, hexact, units_finiteRanks hlast, hunits]
    calc
      steps * 2 ^ (scale + k) < 2 ^ 53 * 2 ^ (scale + k) :=
        Nat.mul_lt_mul_of_pos_right hsteps (Nat.two_pow_pos _)
      _ = binade * 2 ^ (1 + (scale + k)) := by
        rw [Nat.pow_add 2 1, ← Nat.mul_assoc]
        rfl
      _ ≤ binade * 2 ^ last :=
        Nat.mul_le_mul_left _ (Nat.pow_le_pow_right (by norm_num) (by omega))
  rcases ofInt?_cases n with ⟨hnone, -⟩ | ⟨rank, whole, -, hwhole, hrank, hunits', -⟩
  · rw [ofInt?_eq, dif_pos hfinite] at hnone
    cases hnone
  · rw [hrank, hexact] at hunits'
    rw [hwhole, ← Nat.eq_of_mul_eq_mul_right one_pos hunits', signed_natAbs]

/-! # Remainders -/

theorem rem?_finite {m n : Bool} (a : Fin finiteRanks) {b : Fin finiteRanks} (hb : 0 < b.val) :
    ∃ rank : Fin finiteRanks, (finite m a).rem? (finite n b) = some (finite m rank) ∧
      units rank = units a % units b := by
  rcases exists_units_mod a.val hb with ⟨rank, hrank⟩
  have hfinite : rank < finiteRanks := by
    refine lt_of_le_of_lt ?_ a.isLt
    rw [← strictMono_units.le_iff_le, hrank]
    exact Nat.mod_le _ _
  have hne : (b.val == 0) = false := by
    simpa using hb.ne'
  refine ⟨⟨rank, hfinite⟩, ?_, hrank⟩
  simp only [rem?, hne, Bool.false_eq_true, if_false, ← hrank, ofUnits, nearestRank_units, ofRank,
    dif_pos hfinite]

end Binary64

theorem tmod_signed (a b : Int) (m n : Nat) :
    (Binary64.signed a m).tmod (Binary64.signed b n) = Binary64.signed a (m % n) := by
  have hmod : (m : Int).tmod n = ((m % n : Nat) : Int) := (Int.ofNat_tmod m n).symm
  unfold Binary64.signed
  split <;> split <;> simp only [Int.neg_tmod, Int.tmod_neg, hmod]

open Binary64

namespace Number

variable {a b m n : Int}

theorem remainder_int (hb : b ≠ 0) (hm : wholeNear? a = some m) (hn : wholeNear? b = some n) :
    Number.remainder (.int a) (.int b) = .ok (.int (m.tmod n)) := by
  rcases ofInt?_cases a with ⟨-, hnone⟩ | ⟨ranka, wholea, ha, hwholea, -, hunitsa, -⟩
  · cases hnone.symm.trans hm
  rcases ofInt?_cases b with ⟨-, hnone⟩ | ⟨rankb, wholeb, hb', hwholeb, -, hunitsb, hpos⟩
  · cases hnone.symm.trans hn
  cases hwholea.symm.trans hm
  cases hwholeb.symm.trans hn
  have hrankb : 0 < rankb.val := by
    refine Nat.pos_of_ne_zero fun hzero => ?_
    have hproduct := Nat.mul_pos (hpos hb) Binary64.one_pos
    rw [← hunitsb, hzero] at hproduct
    exact absurd hproduct (Nat.lt_irrefl 0)
  rcases rem?_finite (m := decide (a < 0)) (n := decide (b < 0)) ranka hrankb with
    ⟨rank, hrem, hunits⟩
  have htruncate :
      (finite (decide (a < 0)) rank).truncate? = some (signed a (wholea % wholeb)) := by
    rw [hunitsa, hunitsb, Nat.mul_mod_mul_right] at hunits
    simp only [truncate?, hunits, whole_div_one, signed, decide_eq_true_eq]
  rw [remainder, toBinary, toBinary, ha, hb']
  simp only [Option.elim, bind, Except.bind, hrem, htruncate, tmod_signed]
  rfl

theorem remainder_int_of_none (h : wholeNear? a = none ∨ wholeNear? b = none) :
    Number.remainder (.int a) (.int b) = .error .tooLarge := by
  rcases ofInt?_cases a with ⟨ha, -⟩ | ⟨ranka, wholea, ha, hwholea, -⟩
  · rw [remainder, toBinary, ha]
    rfl
  rcases ofInt?_cases b with ⟨hb, -⟩ | ⟨rankb, wholeb, -, hwholeb, -⟩
  · rw [remainder, toBinary, toBinary, ha, hb]
    rfl
  · rw [hwholea, hwholeb] at h
    rcases h with h | h <;> cases h

end Number
end Stencil
