import Mathlib
import Stencil.Proofs.Value.Keys
import Stencil.Proofs.Value.Settling

/-!
# What is reached from values

What stands in a value, directly or through others, is reached from it. These are finitely many
values. So where no value that is reached stands in itself, every way inwards has an end, and
what holds of a value as soon as it holds of what stands in it holds of all of them.
-/

namespace Stencil
namespace Store

def Reaches (σ : Store) : Value → Value → Prop :=
  Relation.ReflTransGen fun v u => u ∈ σ.inside v

def IsAcyclic (σ : Store) (v : Value) : Prop :=
  ∀ u, σ.Reaches v u → ¬ Relation.TransGen (fun v u => u ∈ σ.inside v) u u

/--
What is reached is as values are kept: mappings have no two keys that find the same entry, and
containers in the store are there.
-/
structure IsKept (σ : Store) (v : Value) : Prop where
  distinct : ∀ u entries, σ.Reaches v u → σ.shape u = .map entries → entries.Distinct
  stored : ∀ place, σ.Reaches v (.shared place) → place < σ.shared.size

variable {σ : Store} {v : Value}

theorem Reaches.mem_reach {u : Value} (h : σ.Reaches v u) : u ∈ σ.reach v := by
  induction h with
  | refl => exact σ.mem_reach_self v
  | tail _ hstep ih => exact σ.closes_reach v _ ih _ hstep

variable (σ v) in
theorem finite_reaches : Finite {u // σ.Reaches v u} :=
  ((List.finite_toSet (σ.reach v)).subset fun _ hu => Reaches.mem_reach hu).to_subtype

theorem isAcyclic_iff_acc : σ.IsAcyclic v ↔ Acc (fun u v => u ∈ σ.inside v) v := by
  constructor
  · intro h
    have := finite_reaches σ v
    let Inner (a b : {u // σ.Reaches v u}) : Prop :=
      Relation.TransGen (fun v u => u ∈ σ.inside v) b.1 a.1
    have htrans : IsTrans _ Inner := ⟨fun _ _ _ hab hbc => hbc.trans hab⟩
    have hirrefl : Std.Irrefl Inner := ⟨fun u => h u.1 u.2⟩
    have hwf : WellFounded Inner := Finite.wellFounded_of_trans_of_irrefl Inner
    have hall : ∀ u : {u // σ.Reaches v u}, Acc (fun u v => u ∈ σ.inside v) u.1 := by
      intro u
      induction u using hwf.induction with
      | h u ih => exact .intro _ fun w hw => ih ⟨w, u.2.tail hw⟩ (.single hw)
    exact hall ⟨v, .refl⟩
  · intro h
    induction h with
    | intro v _ ih =>
        intro u hu hcycle
        rcases hu.cases_head with rfl | ⟨w, hw, hu⟩
        · -- The cycle comes back through something that stands in the value.
          rcases Relation.TransGen.head'_iff.mp hcycle with ⟨w, hw, hback⟩
          exact ih w hw v hback hcycle
        · exact ih w hw u hu hcycle

theorem isAcyclic_of_inside (h : ∀ u ∈ σ.inside v, σ.IsAcyclic u) : σ.IsAcyclic v :=
  isAcyclic_iff_acc.mpr (.intro v fun u hu => isAcyclic_iff_acc.mp (h u hu))

theorem IsKept.of_inside (h : σ.IsKept v) {u : Value} (hu : u ∈ σ.inside v) : σ.IsKept u where
  distinct w entries hw := h.distinct w entries (.head hu hw)
  stored place hplace := h.stored place (.head hu hplace)

theorem isKept_of_inside (hdistinct : ∀ entries, σ.shape v = .map entries → entries.Distinct)
    (hstored : ∀ place, v = .shared place → place < σ.shared.size)
    (hinside : ∀ u ∈ σ.inside v, σ.IsKept u) : σ.IsKept v where
  distinct u entries hu hshape := by
    rcases hu.cases_head with rfl | ⟨w, hw, hu⟩
    · exact hdistinct entries hshape
    · exact (hinside w hw).distinct u entries hu hshape
  stored place hplace := by
    rcases hplace.cases_head with hself | ⟨w, hw, hplace⟩
    · exact hstored place hself
    · exact (hinside w hw).stored place hplace

/-! # Values without contents -/

theorem inside_of_plain (h : σ.shape v = .plain) : σ.inside v = [] := by
  rw [inside, h]

theorem isAcyclic_of_plain (h : σ.shape v = .plain) : σ.IsAcyclic v :=
  isAcyclic_of_inside (by simp [inside_of_plain h])

theorem isKept_of_plain (h : σ.shape v = .plain) (hplace : v.place? = none) : σ.IsKept v := by
  refine isKept_of_inside ?_ ?_ (by simp [inside_of_plain h])
  · simp [h]
  · rintro place rfl
    cases hplace

end Store
end Stencil
