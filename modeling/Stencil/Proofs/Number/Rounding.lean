import Mathlib
import Stencil.Number.Shortest

/-!
# Rounding to the nearest double

A finite double that is not negative is a number of steps, the steps being powers of two. The
span of a double reaches half way to its neighbours, and a quotient that lies in it is rounded to
this double. Only where the step changes does the span lie on two grids; a quotient below the
change is rounded on the finer one.
-/

namespace Stencil
namespace Binary64

/-! # Steps -/

/-- How many doubles share a step, the subnormal ones apart. -/
def binade : Nat := Nat.pow 2 52

theorem binade_pos : 0 < binade :=
  Nat.two_pow_pos 52

theorem units_def (rank : Nat) :
    units rank = if rank < binade then rank
      else (binade + rank % binade) * 2 ^ (rank / binade - 1) :=
  rfl

theorem exists_steps (rank : Nat) :
    ∃ scale steps, rank = scale * binade + steps ∧ steps < 2 * binade ∧
      (scale = 0 ∨ binade ≤ steps) := by
  have hmod := Nat.mod_lt rank binade_pos
  have hdiv := Nat.div_add_mod rank binade
  rcases Nat.lt_or_ge rank binade with hsmall | hlarge
  · exact ⟨0, rank, by omega, by omega, .inl rfl⟩
  · refine ⟨rank / binade - 1, binade + rank % binade, ?_, by omega, .inr (by omega)⟩
    have hpos : 1 ≤ rank / binade := (Nat.one_le_div_iff binade_pos).mpr hlarge
    rcases Nat.exists_eq_add_of_le' hpos with ⟨scale, hscale⟩
    rw [hscale] at hdiv ⊢
    rw [Nat.add_sub_cancel]
    calc
      rank = binade * (scale + 1) + rank % binade := hdiv.symm
      _ = scale * binade + (binade + rank % binade) := by ring

theorem units_steps {scale steps : Nat} (hsteps : steps ≤ 2 * binade)
    (hscale : scale = 0 ∨ binade ≤ steps) :
    units (scale * binade + steps) = steps * 2 ^ scale := by
  have hbinade := binade_pos
  rw [units_def]
  rcases Nat.lt_or_ge steps binade with hsmall | hnormal
  · have hzero : scale = 0 := hscale.resolve_right (by omega)
    subst hzero
    rw [if_pos (by omega), Nat.zero_mul, Nat.zero_add, Nat.pow_zero, Nat.mul_one]
  · rcases Nat.exists_eq_add_of_le hnormal with ⟨fraction, rfl⟩
    have hrank : scale * binade + (binade + fraction) = fraction + (scale + 1) * binade := by ring
    have hlarge : ¬ fraction + (scale + 1) * binade < binade := by
      have := Nat.le_mul_of_pos_left binade (Nat.succ_pos scale)
      omega
    rw [hrank, if_neg hlarge, Nat.add_mul_mod_self_right, Nat.add_mul_div_right _ _ hbinade]
    rcases Nat.lt_or_ge fraction binade with hsame | hnext
    · rw [Nat.mod_eq_of_lt hsame, Nat.div_eq_of_lt hsame, Nat.zero_add, Nat.add_sub_cancel]
    · have hfraction : fraction = binade := by omega
      rw [hfraction, Nat.mod_self, Nat.div_self hbinade, Nat.add_zero, Nat.add_sub_cancel_left,
        Nat.pow_succ]
      ring

/-- Where a double above zero stands: over another one of its step, or first of its step. -/
inductive Place : Nat → Prop
  | inside {scale steps : Nat} (hpos : 0 < steps) (hsteps : steps < 2 * binade)
      (hscale : scale = 0 ∨ binade < steps) : Place (scale * binade + steps)
  | first (finer : Nat) : Place ((finer + 1) * binade + binade)

theorem place {rank : Nat} (h : 0 < rank) : Place rank := by
  have hbinade := binade_pos
  rcases exists_steps rank with ⟨scale, steps, rfl, hsteps, hscale⟩
  have hpos : 0 < steps := by
    rcases hscale with rfl | hscale <;> omega
  by_cases hinside : scale = 0 ∨ binade < steps
  · exact .inside hpos hsteps hinside
  · have hfirst : steps = binade := by omega
    subst hfirst
    rcases Nat.exists_eq_add_one_of_ne_zero fun hzero => hinside (.inl hzero) with ⟨finer, rfl⟩
    exact .first finer

/-! # Quotients -/

theorem roundQuotient_of_near {num den k : Nat} (hden : 0 < den)
    (hlow : 2 * (k * den) ≤ 2 * num + den) (hhigh : 2 * num ≤ 2 * (k * den) + den)
    (hodd : k % 2 = 1 → 2 * (k * den) < 2 * num + den ∧ 2 * num < 2 * (k * den) + den) :
    roundQuotient num den = k := by
  have hdiv := Nat.div_add_mod num den
  have hmod := Nat.mod_lt num hden
  rw [roundQuotient]
  generalize num / den = whole at hdiv ⊢
  generalize num % den = rest at hdiv hmod ⊢
  subst hdiv
  have hle : k ≤ whole + 1 := by
    have : k * den < (whole + 2) * den := by nlinarith
    have := Nat.lt_of_mul_lt_mul_right this
    omega
  have hge : whole ≤ k := by
    have : whole * den < (k + 1) * den := by nlinarith
    have := Nat.lt_of_mul_lt_mul_right this
    omega
  rcases Nat.lt_or_ge whole k with hup | hdown
  · have hk : k = whole + 1 := by omega
    subst hk
    have hrest : den ≤ 2 * rest := by nlinarith
    have htie : (whole + 1) % 2 = 1 → den < 2 * rest := by
      intro h
      have := (hodd h).1
      nlinarith
    have hcond : (decide (2 * rest > den) || (2 * rest == den && whole % 2 == 1)) = true := by
      simp only [Bool.or_eq_true, decide_eq_true_eq, Bool.and_eq_true, beq_iff_eq]
      omega
    simp only [hcond, if_true]
  · have hk : k = whole := by omega
    subst hk
    have hrest : 2 * rest ≤ den := by nlinarith
    have htie : k % 2 = 1 → 2 * rest < den := by
      intro h
      have := (hodd h).2
      nlinarith
    have hcond : (decide (2 * rest > den) || (2 * rest == den && k % 2 == 1)) = false := by
      simp only [Bool.or_eq_false_iff, decide_eq_false_iff_not, Bool.and_eq_false_iff,
        beq_eq_false_iff_ne, ne_eq]
      omega
    simp only [hcond, Bool.false_eq_true, if_false]

theorem nearestRank_of_scale {num den scale : Nat}
    (hlow : scale = 0 ∨ binade * 2 ^ scale ≤ num / den)
    (hhigh : num / den < 2 * binade * 2 ^ scale) :
    nearestRank num den = scale * binade + roundQuotient num (den * 2 ^ scale) := by
  have hexponent : (num / den).log2 - 52 = scale := by
    have hsize : num / den < 2 ^ (53 + scale) := by
      rw [Nat.pow_add]
      exact hhigh
    rcases Nat.eq_zero_or_pos (num / den) with hzero | hpos
    · rcases hlow with rfl | hlow
      · rw [hzero, Nat.log2_zero]
      · have := Nat.mul_pos binade_pos (Nat.two_pow_pos scale)
        omega
    · have hne : num / den ≠ 0 := Nat.ne_of_gt hpos
      have hbelow := (Nat.log2_lt hne).mpr hsize
      rcases hlow with rfl | hlow
      · omega
      · have hsame : binade * 2 ^ scale = 2 ^ (52 + scale) := by
          rw [Nat.pow_add]
          rfl
        have habove := (Nat.le_log2 hne).mpr (hsame ▸ hlow)
        omega
  rw [nearestRank]
  simp only [hexponent]
  rfl

/-! # Spans -/

structure Span.Around (s : Span) (num den : Nat) : Prop where
  low : s.low * den ≤ 2 * num
  high : 2 * num ≤ s.high * den
  inside : s.closed = false → s.low * den < 2 * num ∧ 2 * num < s.high * den

section Spans

variable {scale steps : Nat}

theorem high_span (hsteps : steps < 2 * binade) (hscale : scale = 0 ∨ binade ≤ steps) :
    (span (scale * binade + steps)).high = (2 * steps + 1) * 2 ^ scale := by
  show units (scale * binade + steps) + units (scale * binade + steps + 1) = _
  rw [Nat.add_assoc, units_steps (by omega) hscale, units_steps (by omega) (by omega)]
  ring

theorem low_span (hpos : 0 < steps) (hsteps : steps < 2 * binade)
    (hscale : scale = 0 ∨ binade < steps) :
    (span (scale * binade + steps)).low = (2 * steps - 1) * 2 ^ scale := by
  rcases Nat.exists_eq_add_of_le' hpos with ⟨before, rfl⟩
  show units (scale * binade + (before + 1) - 1) + units (scale * binade + (before + 1)) = _
  rw [← Nat.add_assoc, Nat.add_sub_cancel, units_steps (by omega) (by omega), Nat.add_assoc,
    units_steps (by omega) (by omega), ← Nat.add_mul]
  congr 1
  omega

theorem low_span_first (scale : Nat) :
    (span ((scale + 1) * binade + binade)).low = (4 * binade - 1) * 2 ^ scale := by
  have hbinade := binade_pos
  have hbefore : (scale + 1) * binade + binade - 1 = scale * binade + (2 * binade - 1) := by
    rw [Nat.add_mul]
    omega
  show units ((scale + 1) * binade + binade - 1) + units ((scale + 1) * binade + binade) = _
  rw [hbefore, units_steps (by omega) (by omega), units_steps (by omega) (by omega), Nat.pow_succ,
    ← Nat.mul_assoc, Nat.mul_right_comm, ← Nat.add_mul]
  congr 1

end Spans

theorem closed_span (scale steps : Nat) :
    (span (scale * binade + steps)).closed = (steps % 2 == 0) := by
  have heven : binade % 2 = 0 := rfl
  show ((scale * binade + steps) % 2 == 0) = (steps % 2 == 0)
  rw [Nat.add_mod, Nat.mul_mod, heven, Nat.mul_zero, Nat.zero_mod, Nat.zero_add, Nat.mod_mod]

theorem nearestRank_of_steps {num den scale steps : Nat} (hden : 0 < den)
    (hsteps : steps ≤ 2 * binade) (hscale : scale = 0 ∨ binade * 2 ^ scale ≤ num / den)
    (hbelow : num / den < 2 * binade * 2 ^ scale)
    (hlow : (2 * steps - 1) * 2 ^ scale * den ≤ 2 * num)
    (hhigh : 2 * num ≤ (2 * steps + 1) * 2 ^ scale * den)
    (hodd : steps % 2 = 1 →
      (2 * steps - 1) * 2 ^ scale * den < 2 * num ∧ 2 * num < (2 * steps + 1) * 2 ^ scale * den) :
    nearestRank num den = scale * binade + steps := by
  rw [nearestRank_of_scale hscale hbelow]
  congr 1
  have hstep : 0 < den * 2 ^ scale := Nat.mul_pos hden (Nat.two_pow_pos scale)
  rcases Nat.eq_zero_or_pos steps with rfl | hpos
  · refine roundQuotient_of_near hstep (by omega) ?_ (by omega)
    calc
      2 * num ≤ (2 * 0 + 1) * 2 ^ scale * den := hhigh
      _ = 2 * (0 * (den * 2 ^ scale)) + den * 2 ^ scale := by ring
  · rcases Nat.exists_eq_add_of_le' hpos with ⟨before, rfl⟩
    have hbefore : 2 * (before + 1) - 1 = 2 * before + 1 := by omega
    rw [hbefore] at hlow hodd
    refine roundQuotient_of_near hstep ?_ ?_ ?_
    · linarith
    · linarith
    · intro h
      have := hodd h
      constructor <;> linarith

section Around

variable {num den : Nat} (hden : 0 < den)

include hden

theorem div_lt_of_around {scale steps : Nat} (hsteps : steps < 2 * binade)
    (hhigh : 2 * num ≤ (2 * steps + 1) * 2 ^ scale * den) :
    num / den < 2 * binade * 2 ^ scale := by
  rw [Nat.div_lt_iff_lt_mul hden]
  have : (2 * steps + 1) * (2 ^ scale * den) < 4 * binade * (2 ^ scale * den) :=
    Nat.mul_lt_mul_of_pos_right (by omega) (Nat.mul_pos (Nat.two_pow_pos scale) hden)
  linarith

theorem nearestRank_inside {scale steps : Nat} (hpos : 0 < steps) (hsteps : steps < 2 * binade)
    (hscale : scale = 0 ∨ binade < steps)
    (h : (span (scale * binade + steps)).Around num den) :
    nearestRank num den = scale * binade + steps := by
  have hlow := h.low
  have hhigh := h.high
  have hodd := h.inside
  rw [low_span hpos hsteps hscale] at hlow hodd
  rw [high_span hsteps (hscale.imp_right Nat.le_of_lt)] at hhigh hodd
  refine nearestRank_of_steps hden (by omega) ?_ (div_lt_of_around hden hsteps hhigh) hlow hhigh
    fun hsteps => hodd (by rw [closed_span, hsteps]; rfl)
  refine hscale.imp_right fun hnormal => ?_
  rw [Nat.le_div_iff_mul_le hden]
  have : 2 * binade * (2 ^ scale * den) ≤ (2 * steps - 1) * (2 ^ scale * den) :=
    Nat.mul_le_mul_right _ (by omega)
  linarith

theorem nearestRank_first {finer : Nat}
    (h : (span ((finer + 1) * binade + binade)).Around num den) :
    nearestRank num den = (finer + 1) * binade + binade := by
  have hbinade := binade_pos
  have heven : binade % 2 = 0 := rfl
  have hlow := h.low
  have hhigh := h.high
  rw [low_span_first] at hlow
  rw [high_span (by omega) (.inr (Nat.le_refl _))] at hhigh
  rcases Nat.lt_or_ge num (binade * 2 ^ (finer + 1) * den) with hbefore | hafter
  · have hrank : (finer + 1) * binade + binade = finer * binade + 2 * binade := by
      rw [Nat.succ_mul]
      omega
    rw [hrank]
    rw [Nat.pow_succ] at hbefore
    refine nearestRank_of_steps hden (by omega) (.inr ?_) ?_ ?_ ?_ (by omega)
    · rw [Nat.le_div_iff_mul_le hden]
      have : 2 * binade * (2 ^ finer * den) ≤ (4 * binade - 1) * (2 ^ finer * den) :=
        Nat.mul_le_mul_right _ (by omega)
      linarith
    · rw [Nat.div_lt_iff_lt_mul hden]
      linarith
    · rw [show 2 * (2 * binade) - 1 = 4 * binade - 1 by omega]
      exact hlow
    · have : 4 * binade * (2 ^ finer * den) ≤ (2 * (2 * binade) + 1) * (2 ^ finer * den) :=
        Nat.mul_le_mul_right _ (by omega)
      linarith
  · refine nearestRank_of_steps hden (by omega) (.inr ?_)
      (div_lt_of_around hden (by omega) hhigh) ?_ hhigh (by omega)
    · rw [Nat.le_div_iff_mul_le hden]
      exact hafter
    · have : (2 * binade - 1) * (2 ^ (finer + 1) * den) ≤ 2 * binade * (2 ^ (finer + 1) * den) :=
        Nat.mul_le_mul_right _ (by omega)
      linarith

theorem nearestRank_of_around {rank : Nat} (hrank : 0 < rank) (h : (span rank).Around num den) :
    nearestRank num den = rank := by
  cases place hrank with
  | inside hpos hsteps hscale => exact nearestRank_inside hden hpos hsteps hscale h
  | first finer => exact nearestRank_first hden h

end Around

end Binary64
end Stencil
