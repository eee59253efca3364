import Stencil.Cache.Basic

/-!
# What caches answer

What is found in a cache after something has been put into it, and after it has been asked.
-/

namespace Stencil

namespace Cache

variable {κ ε : Type} (cache : Cache κ) (path other : Text)

theorem find?_insert (value : κ) :
    (cache.insert path value).find? other =
      if other = path then some value else cache.find? other := by
  have htest : (fun entry : Text × κ =>
      decide ((entry.1 != path) = true ∧ (entry.1 == other) = true)) =
      fun entry => entry.1 == other && other != path := by
    funext entry
    by_cases hentry : entry.1 = other <;> by_cases hpath : other = path <;> simp [hentry, hpath]
  unfold insert find?
  rw [List.find?_append, List.find?_filter, htest]
  by_cases h : other = path
  · have hnone : (cache.entries.find? fun entry => entry.1 == other && other != path) = none := by
      simp [h]
    rw [hnone, h, if_pos rfl, Option.none_or, List.find?_cons, beq_self_eq_true]
    rfl
  · have hlast : (path == other) = false := by
      rw [beq_eq_false_iff_ne]
      exact fun hpath => h hpath.symm
    have hother : (other != path) = true := bne_iff_ne.mpr h
    simp only [hother, Bool.and_true, if_neg h, List.find?_cons, hlast, List.find?_nil,
      Option.or_none]

theorem get_fst (load : Unit → Except ε κ) :
    (cache.get path load).1 = (cache.find? path).elim (load ()) .ok := by
  unfold get
  cases cache.find? path with
  | some value => rfl
  | none =>
      dsimp only
      cases load () <;> rfl

theorem find?_get (load : Unit → Except ε κ) :
    (cache.get path load).2.find? other =
      if other = path then (cache.get path load).1.toOption else cache.find? other := by
  unfold get
  cases hfound : cache.find? path with
  | some value =>
      by_cases h : other = path
      · rw [if_pos h, h]
        exact hfound
      · rw [if_neg h]
        rfl
  | none =>
      dsimp only
      cases load () with
      | ok value =>
          dsimp only
          rw [find?_insert]
          rfl
      | error failure =>
          by_cases h : other = path
          · rw [if_pos h, h]
            exact hfound
          · rw [if_neg h]
            rfl

theorem get_get (load : Text → Except ε κ) :
    ((cache.get path fun _ => load path).2.get other fun _ => load other).1 =
      (cache.get other fun _ => load other).1 := by
  rw [get_fst, find?_get]
  by_cases h : other = path
  · rw [if_pos h, h, get_fst]
    cases cache.find? path with
    | some value => rfl
    | none =>
        show (load path).toOption.elim (load path) .ok = load path
        cases load path <;> rfl
  · rw [if_neg h, get_fst]

end Cache

end Stencil
