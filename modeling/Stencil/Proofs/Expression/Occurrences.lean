import Mathlib
import Stencil.Expression.Tree

/-!
# Where calls stand in an expression

The parts of an expression can be listed from left to right, each behind its own operands, or with
the subscript of a member access in front of its object. No part is listed twice, and both lists
have the same parts. A row of calls that keeps to the second order keeps to the first one too,
unless a call in a subscript is followed by one in its object.
-/

namespace Stencil

/-- The way to a part of an expression: the number of the operand for each step, the last first. -/
abbrev Way : Type := List Nat

/-- An order in which the operands of an expression may come. -/
inductive Sequencing where
  | leftToRight
  | subscriptsFirst

structure Occurrence where
  way : Way
  expr : Expr

namespace Expr

def operands : Expr → List Expr
  | .literal _ => []
  | .name _ => []
  | .this => []
  | .member target key => [target, key]
  | .call callee args => callee :: args
  | .unary _ operand => [operand]
  | .binary _ left right => [left, right]
  | .logical _ left right => [left, right]
  | .conditional test yes no => [test, yes, no]
  | .array items => items
  | .object entries => entries.map (·.2)

/-- The operands of an expression in their order, numbered from left to right. -/
def turns (sequencing : Sequencing) (e : Expr) : List (Expr × Nat) :=
  match sequencing, e with
  | .subscriptsFirst, .member target key => [(key, 1), (target, 0)]
  | _, e => e.operands.zipIdx

def isCall : Expr → Bool
  | .call _ _ => true
  | _ => false

theorem turns_perm (sequencing : Sequencing) (e : Expr) :
    (e.turns sequencing).Perm e.operands.zipIdx := by
  cases sequencing with
  | leftToRight => exact .refl _
  | subscriptsFirst =>
      cases e with
      | member target key => exact .swap (target, 0) (key, 1) []
      | _ => exact .refl _

theorem mem_operands_of_mem_turns {sequencing : Sequencing} {e : Expr} {turn : Expr × Nat}
    (h : turn ∈ e.turns sequencing) : turn.1 ∈ e.operands :=
  List.fst_mem_of_mem_zipIdx ((e.turns_perm sequencing).mem_iff.mp h)

theorem nodup_turns (sequencing : Sequencing) (e : Expr) :
    ((e.turns sequencing).map (·.2)).Nodup := by
  rw [((e.turns_perm sequencing).map (·.2)).nodup_iff, List.zipIdx_map_snd]
  exact List.nodup_range'

theorem turns_eq_or (e : Expr) :
    e.turns .subscriptsFirst = e.turns .leftToRight ∨ ∃ target key, e = .member target key := by
  cases e with
  | member target key => exact .inr ⟨target, key, rfl⟩
  | _ => exact .inl rfl

theorem sizeOf_lt_of_mem_operands {e operand : Expr} (h : operand ∈ e.operands) :
    sizeOf operand < sizeOf e := by
  cases e with
  | literal value => cases h
  | name name => cases h
  | this => cases h
  | call callee args =>
      rw [call.sizeOf_spec]
      rcases List.mem_cons.mp h with rfl | hargs
      · omega
      · have hlist := List.sizeOf_lt_of_mem hargs
        omega
  | array items =>
      have hlist := List.sizeOf_lt_of_mem (show operand ∈ items from h)
      rw [array.sizeOf_spec]
      omega
  | object entries =>
      rcases List.mem_map.mp h with ⟨⟨key, value⟩, hentry, rfl⟩
      have hlist := List.sizeOf_lt_of_mem hentry
      rw [Prod.mk.sizeOf_spec] at hlist
      rw [object.sizeOf_spec]
      dsimp only
      omega
  | _ =>
      simp only [operands, List.mem_cons, List.not_mem_nil, or_false] at h
      rcases h with rfl | rfl | rfl <;> simp <;> omega

theorem induction_operands {motive : Expr → Prop}
    (step : ∀ e, (∀ operand ∈ e.operands, motive operand) → motive e) (e : Expr) : motive e := by
  induction hsize : sizeOf e using Nat.strongRecOn generalizing e with
  | ind size ih =>
      refine step e fun operand hoperand => ?_
      exact ih (sizeOf operand) (hsize ▸ sizeOf_lt_of_mem_operands hoperand) operand rfl

/-! # Parts -/

/-- The parts of an expression to which a way leads, each behind its operands. -/
def occurrences (sequencing : Sequencing) (way : Way) (e : Expr) : List Occurrence :=
  (e.turns sequencing).attach.flatMap
    (fun turn => turn.1.1.occurrences sequencing (turn.1.2 :: way)) ++ [⟨way, e⟩]
termination_by e
decreasing_by exact sizeOf_lt_of_mem_operands (mem_operands_of_mem_turns turn.2)

def calls (sequencing : Sequencing) (way : Way) (e : Expr) : List Way :=
  ((e.occurrences sequencing way).filter (·.expr.isCall)).map (·.way)

theorem occurrences_eq (sequencing : Sequencing) (way : Way) (e : Expr) :
    e.occurrences sequencing way =
      (e.turns sequencing).flatMap (fun turn => turn.1.occurrences sequencing (turn.2 :: way)) ++
        [⟨way, e⟩] := by
  rw [occurrences, List.flatMap_subtype (g := fun turn =>
    turn.1.occurrences sequencing (turn.2 :: way)) fun _ _ => rfl, List.unattach_attach]

theorem calls_eq (sequencing : Sequencing) (way : Way) (e : Expr) :
    e.calls sequencing way =
      (e.turns sequencing).flatMap (fun turn => turn.1.calls sequencing (turn.2 :: way)) ++
        if e.isCall then [way] else [] := by
  rw [calls, occurrences_eq, List.filter_append, List.map_append, List.filter_flatMap,
    List.map_flatMap]
  cases hcall : e.isCall <;> simp [hcall, calls]

section Parts

variable {sequencing : Sequencing} {way : Way} {e : Expr} {part : Occurrence}

theorem mem_occurrences :
    part ∈ e.occurrences sequencing way ↔
      (∃ turn ∈ e.turns sequencing, part ∈ turn.1.occurrences sequencing (turn.2 :: way)) ∨
        part = ⟨way, e⟩ := by
  rw [occurrences_eq, List.mem_append, List.mem_flatMap, List.mem_singleton]

theorem suffix_of_mem_occurrences (h : part ∈ e.occurrences sequencing way) :
    way <:+ part.way := by
  induction e using induction_operands generalizing way with
  | step e ih =>
      rcases mem_occurrences.mp h with ⟨turn, hturn, hpart⟩ | rfl
      · exact (List.suffix_cons _ _).trans (ih turn.1 (mem_operands_of_mem_turns hturn) hpart)
      · exact List.suffix_refl _

theorem number_unique {i j : Nat} {onward : Way} (hi : i :: way <:+ onward)
    (hj : j :: way <:+ onward) : i = j := by
  have hsame := (List.suffix_of_suffix_length_le hi hj (Nat.le_refl _)).eq_of_length rfl
  exact (List.cons.inj hsame).1

theorem nodup_occurrences (sequencing : Sequencing) (way : Way) (e : Expr) :
    ((e.occurrences sequencing way).map (·.way)).Nodup := by
  induction e using induction_operands generalizing way with
  | step e ih =>
      have honward {turn : Expr × Nat} {onward : Way}
          (h : onward ∈ (turn.1.occurrences sequencing (turn.2 :: way)).map (·.way)) :
          turn.2 :: way <:+ onward := by
        rcases List.mem_map.mp h with ⟨part, hpart, rfl⟩
        exact suffix_of_mem_occurrences hpart
      rw [occurrences_eq, List.map_append, List.map_flatMap, List.nodup_append, List.nodup_flatMap]
      refine ⟨⟨fun turn hturn => ih turn.1 (mem_operands_of_mem_turns hturn) _, ?_⟩,
        List.nodup_singleton way, ?_⟩
      · have hnumbers := nodup_turns sequencing e
        rw [List.Nodup, List.pairwise_map] at hnumbers
        refine hnumbers.imp fun hne onward hfirst hsecond => ?_
        exact hne (number_unique (honward hfirst) (honward hsecond))
      · intro onward hmem here hhere hsame
        rcases List.mem_flatMap.mp hmem with ⟨turn, -, hturn⟩
        have hlength := (honward hturn).length_le
        rw [hsame, List.mem_singleton.mp hhere, List.length_cons] at hlength
        exact absurd hlength (Nat.not_succ_le_self _)

theorem occurrences_perm (s t : Sequencing) (way : Way) (e : Expr) :
    (e.occurrences s way).Perm (e.occurrences t way) := by
  induction e using induction_operands generalizing way with
  | step e ih =>
      rw [occurrences_eq, occurrences_eq]
      refine List.Perm.append_right _ (List.Perm.flatMap ?_ ?_)
      · exact (e.turns_perm s).trans (e.turns_perm t).symm
      · exact fun turn hturn => ih turn.1 (mem_operands_of_mem_turns hturn) _

theorem occurrences_sublist (h : part ∈ e.occurrences sequencing way) :
    (part.expr.occurrences sequencing part.way).Sublist (e.occurrences sequencing way) := by
  induction e using induction_operands generalizing way with
  | step e ih =>
      rcases mem_occurrences.mp h with ⟨turn, hturn, hpart⟩ | rfl
      · have hinside := List.sublist_flatten_of_mem (List.mem_map_of_mem (f := fun turn =>
          turn.1.occurrences sequencing (turn.2 :: way)) hturn)
        rw [occurrences_eq sequencing way e, List.flatMap_def]
        exact (ih turn.1 (mem_operands_of_mem_turns hturn) hpart).trans
          (hinside.trans (List.sublist_append_left _ _))
      · exact .refl _

/-! # Calls -/

theorem nodup_calls (sequencing : Sequencing) (way : Way) (e : Expr) :
    (e.calls sequencing way).Nodup :=
  (nodup_occurrences sequencing way e).sublist (List.filter_sublist.map _)

theorem calls_perm (s t : Sequencing) (way : Way) (e : Expr) :
    (e.calls s way).Perm (e.calls t way) :=
  ((occurrences_perm s t way e).filter _).map _

theorem calls_sublist (h : part ∈ e.occurrences sequencing way) :
    (part.expr.calls sequencing part.way).Sublist (e.calls sequencing way) :=
  ((occurrences_sublist h).filter _).map _

theorem calls_member (sequencing : Sequencing) (way : Way) (target key : Expr) :
    (member target key).calls sequencing way =
      match sequencing with
      | .leftToRight =>
          target.calls sequencing (0 :: way) ++ key.calls sequencing (1 :: way)
      | .subscriptsFirst =>
          key.calls sequencing (1 :: way) ++ target.calls sequencing (0 :: way) := by
  rw [calls_eq]
  cases sequencing <;> simp [turns, operands, isCall]

end Parts

/-! # Rows of calls -/

/--
Whether there is a member access such that a call in its subscript and a call in its object are
among some calls.
-/
def Crosses (made : List Way) (way : Way) (e : Expr) : Prop :=
  ∃ part ∈ e.occurrences .leftToRight way, ∃ target key, part.expr = .member target key ∧
    (∃ call ∈ made, call ∈ key.calls .leftToRight (1 :: part.way)) ∧
    ∃ call ∈ made, call ∈ target.calls .leftToRight (0 :: part.way)

section Rows

variable {made : List Way} {way : Way} {e : Expr}

theorem Crosses.of_operand {chosen : List Way} {turn : Expr × Nat}
    (hturn : turn ∈ e.turns .leftToRight) (hchosen : chosen ⊆ made)
    (h : turn.1.Crosses chosen (turn.2 :: way)) : e.Crosses made way := by
  rcases h with ⟨part, hpart, target, key, hexpr, ⟨late, hlate, hkey⟩, early, hearly, htarget⟩
  exact ⟨part, mem_occurrences.mpr (.inl ⟨turn, hturn, hpart⟩), target, key, hexpr,
    ⟨late, hchosen hlate, hkey⟩, early, hchosen hearly, htarget⟩

theorem Crosses.of_member {target key : Expr} {late early : Way} (hlate : late ∈ made)
    (hkey : late ∈ key.calls .leftToRight (1 :: way)) (hearly : early ∈ made)
    (htarget : early ∈ target.calls .leftToRight (0 :: way)) :
    (member target key).Crosses made way :=
  ⟨⟨way, .member target key⟩, mem_occurrences.mpr (.inr rfl), target, key, rfl,
    ⟨late, hlate, hkey⟩, early, hearly, htarget⟩

theorem sublist_flatMap {α β : Type} {f g : α → List β} {parts : List α} {row : List β}
    (h : row.Sublist (parts.flatMap f))
    (hparts : ∀ part ∈ parts, ∀ chosen, chosen.Sublist (f part) → chosen ⊆ row →
      chosen.Sublist (g part)) :
    row.Sublist (parts.flatMap g) := by
  induction parts generalizing row with
  | nil => exact h
  | cons part others ih =>
      rw [List.flatMap_cons] at h ⊢
      rcases List.sublist_append_iff.mp h with ⟨front, back, rfl, hfront, hback⟩
      refine (hparts part List.mem_cons_self front hfront (List.subset_append_left _ _)).append ?_
      refine ih hback fun other hother chosen hchosen hin => ?_
      exact hparts other (List.mem_cons_of_mem _ hother) chosen hchosen
        (List.subset_append_of_subset_right _ hin)

theorem sublist_of_not_crosses (h : made.Sublist (e.calls .subscriptsFirst way))
    (hnot : ¬ e.Crosses made way) : made.Sublist (e.calls .leftToRight way) := by
  induction e using induction_operands generalizing way made with
  | step e ih =>
      have hoperand : ∀ turn ∈ e.turns .leftToRight, ∀ chosen,
          chosen.Sublist (turn.1.calls .subscriptsFirst (turn.2 :: way)) → chosen ⊆ made →
            chosen.Sublist (turn.1.calls .leftToRight (turn.2 :: way)) := by
        intro turn hturn chosen hchosen hin
        refine ih turn.1 (mem_operands_of_mem_turns hturn) hchosen fun hcrosses => ?_
        exact hnot (hcrosses.of_operand hturn hin)
      rcases e.turns_eq_or with hsame | ⟨target, key, rfl⟩
      · rw [calls_eq, hsame] at h
        rw [calls_eq]
        rcases List.sublist_append_iff.mp h with ⟨front, back, rfl, hfront, hback⟩
        refine (sublist_flatMap hfront fun turn hturn chosen hchosen hin => ?_).append hback
        exact hoperand turn hturn chosen hchosen (List.subset_append_of_subset_left _ hin)
      · rw [calls_member] at h ⊢
        rcases List.sublist_append_iff.mp h with ⟨late, early, rfl, hlate, hearly⟩
        have hkey := hoperand (key, 1) (by simp [turns, operands]) late hlate
          (List.subset_append_left _ _)
        have htarget := hoperand (target, 0) (by simp [turns, operands]) early hearly
          (List.subset_append_right _ _)
        -- The operands change places, which calls in one of them alone do not notice.
        cases late with
        | nil => exact htarget.trans (List.sublist_append_left _ _)
        | cons first others =>
            cases early with
            | nil =>
                rw [List.append_nil]
                exact hkey.trans (List.sublist_append_right _ _)
            | cons next more =>
                exact absurd (Crosses.of_member (by simp) (hkey.subset List.mem_cons_self)
                  (by simp) (htarget.subset List.mem_cons_self)) hnot

theorem exists_split {α : Type} {order front back row : List α} (hnodup : order.Nodup)
    (horder : (front ++ back).Sublist order) (hrow : row.Sublist order) {early late : α}
    (hearly : early ∈ row ∧ early ∈ front) (hlate : late ∈ row ∧ late ∈ back) :
    ∃ first second, row = first ++ second ∧ early ∈ first ∧ late ∈ second := by
  rcases List.append_sublist_iff.mp horder with ⟨before, behind, rfl, hbefore, hbehind⟩
  rcases List.sublist_append_iff.mp hrow with ⟨first, second, rfl, hfirst, hsecond⟩
  have hapart := (List.nodup_append.mp hnodup).2.2
  refine ⟨first, second, rfl, ?_, ?_⟩
  · rcases List.mem_append.mp hearly.1 with hmem | hmem
    · exact hmem
    · exact absurd rfl (hapart _ (hbefore.subset hearly.2) _ (hsecond.subset hmem))
  · rcases List.mem_append.mp hlate.1 with hmem | hmem
    · exact absurd rfl (hapart _ (hfirst.subset hmem) _ (hbehind.subset hlate.2))
    · exact hmem

theorem not_crosses_of_sublist (h : made.Sublist (e.calls .subscriptsFirst way))
    (hleft : made.Sublist (e.calls .leftToRight way)) : ¬ e.Crosses made way := by
  rintro ⟨part, hpart, target, key, hexpr, ⟨late, hlate, hkey⟩, early, hearly, htarget⟩
  have hnodup := (nodup_calls .leftToRight way e).sublist hleft
  have hforth := calls_sublist hpart
  have hback := calls_sublist ((occurrences_perm .leftToRight .subscriptsFirst way e).subset hpart)
  rw [hexpr, calls_member] at hforth hback
  have hkey' := (calls_perm .leftToRight .subscriptsFirst _ key).subset hkey
  have htarget' := (calls_perm .leftToRight .subscriptsFirst _ target).subset htarget
  rcases exists_split (nodup_calls _ _ _) hforth hleft ⟨hearly, htarget⟩ ⟨hlate, hkey⟩ with
    ⟨first, second, rfl, hfirst, hsecond⟩
  rcases exists_split (nodup_calls _ _ _) hback h ⟨hlate, hkey'⟩ ⟨hearly, htarget'⟩ with
    ⟨start, rest, hsame, hstart, hrest⟩
  have hapart := (List.nodup_append.mp hnodup).2.2
  rcases List.append_eq_append_iff.mp hsame with ⟨between, rfl, -⟩ | ⟨between, rfl, -⟩
  · rw [hsame] at hnodup
    exact (List.nodup_append.mp hnodup).2.2 _ (List.mem_append_left _ hfirst) _ hrest rfl
  · exact hapart _ (List.mem_append_left _ hstart) _ hsecond rfl

theorem sublist_leftToRight_iff (h : made.Sublist (e.calls .subscriptsFirst way)) :
    made.Sublist (e.calls .leftToRight way) ↔ ¬ e.Crosses made way :=
  ⟨not_crosses_of_sublist h, sublist_of_not_crosses h⟩

end Rows

end Expr
end Stencil
