import Stencil.Proofs.Sandbox.Comparison

/-!
# The parts of values and stores

What a comparison may meet on its way from a value are the parts of the value and of what the
store holds. They are closed: what stands in one of them is one of them. The weights of the value
and of the store count them.
-/

namespace Stencil

/-! # The parts of values -/

namespace Value

mutual

def parts : Value → List Value
  | .list items => .list items :: partsList items
  | .map entries => .map entries :: partsEntries entries
  | .jsonTools => .jsonTools :: jsonToolEntries.map (·.2)
  | v => [v]

def partsList : List Value → List Value
  | [] => []
  | v :: rest => v.parts ++ partsList rest

def partsEntries : List (Key × Value) → List Value
  | [] => []
  | (_, v) :: rest => v.parts ++ partsEntries rest

end

theorem partsEntries_eq_partsList (entries : List (Key × Value)) :
    partsEntries entries = partsList (entries.map (·.2)) := by
  induction entries with
  | nil => rfl
  | cons entry rest ih => rw [partsEntries, List.map_cons, partsList, ih]

mutual

theorem length_parts : (v : Value) → v.parts.length = v.weight
  | .list items => by
      rw [parts, List.length_cons, length_partsList items, weight, Nat.add_comm]
  | .map entries => by
      rw [parts, List.length_cons, length_partsEntries entries, weight, Nat.add_comm]
  | .jsonTools => rfl
  | .undefined => rfl
  | .null => rfl
  | .bool _ => rfl
  | .int _ => rfl
  | .float _ => rfl
  | .str _ => rfl
  | .callable _ => rfl
  | .host _ _ _ _ => rfl
  | .shared _ => rfl
  | .scope _ => rfl

theorem length_partsList : (items : List Value) → (partsList items).length = weightList items
  | [] => rfl
  | v :: rest => by
      rw [partsList, List.length_append, length_parts v, length_partsList rest, weightList]

theorem length_partsEntries :
    (entries : List (Key × Value)) → (partsEntries entries).length = weightEntries entries
  | [] => rfl
  | (_, v) :: rest => by
      rw [partsEntries, List.length_append, length_parts v, length_partsEntries rest,
        weightEntries]

end

theorem mem_parts_self (v : Value) : v ∈ v.parts := by
  cases v <;> simp [parts]

theorem mem_partsList {items : List Value} {u : Value} :
    u ∈ partsList items ↔ ∃ v ∈ items, u ∈ v.parts := by
  induction items with
  | nil => simp [partsList]
  | cons v rest ih => simp [partsList, ih]

theorem subset_of_single {v u : Value} (hv : v.parts = [v]) (hu : u ∈ v.parts) :
    u.parts ⊆ v.parts := by
  rw [hv] at hu
  rw [List.mem_singleton.mp hu]
  exact List.Subset.refl _

mutual

theorem parts_subset : (v : Value) → ∀ u ∈ v.parts, u.parts ⊆ v.parts
  | .list items, u, hu => by
      rw [parts] at hu
      rcases List.mem_cons.mp hu with rfl | hu
      · exact List.Subset.refl _
      · exact List.subset_cons_of_subset _ (partsList_subset items u hu)
  | .map entries, u, hu => by
      rw [parts] at hu
      rcases List.mem_cons.mp hu with rfl | hu
      · exact List.Subset.refl _
      · exact List.subset_cons_of_subset _ (partsEntries_subset entries u hu)
  | .jsonTools, u, hu => by
      simp only [parts, jsonToolEntries, List.map_cons, List.map_nil, List.mem_cons,
        List.not_mem_nil, or_false] at hu
      rcases hu with rfl | rfl | rfl <;> simp [parts, jsonToolEntries]
  | .undefined, _, hu => subset_of_single rfl hu
  | .null, _, hu => subset_of_single rfl hu
  | .bool _, _, hu => subset_of_single rfl hu
  | .int _, _, hu => subset_of_single rfl hu
  | .float _, _, hu => subset_of_single rfl hu
  | .str _, _, hu => subset_of_single rfl hu
  | .callable _, _, hu => subset_of_single rfl hu
  | .host _ _ _ _, _, hu => subset_of_single rfl hu
  | .shared _, _, hu => subset_of_single rfl hu
  | .scope _, _, hu => subset_of_single rfl hu

theorem partsList_subset : (items : List Value) → ∀ u ∈ partsList items,
    u.parts ⊆ partsList items
  | [], u, hu => absurd hu List.not_mem_nil
  | v :: rest, u, hu => by
      rw [partsList] at hu ⊢
      rcases List.mem_append.mp hu with hu | hu
      · exact List.subset_append_of_subset_left _ (parts_subset v u hu)
      · exact List.subset_append_of_subset_right _ (partsList_subset rest u hu)

theorem partsEntries_subset : (entries : List (Key × Value)) → ∀ u ∈ partsEntries entries,
    u.parts ⊆ partsEntries entries
  | [], u, hu => absurd hu List.not_mem_nil
  | (_, v) :: rest, u, hu => by
      rw [partsEntries] at hu ⊢
      rcases List.mem_append.mp hu with hu | hu
      · exact List.subset_append_of_subset_left _ (parts_subset v u hu)
      · exact List.subset_append_of_subset_right _ (partsEntries_subset rest u hu)

end

end Value

/-! # The parts of stores -/

def Place.value : Place → Value
  | .shared place => .shared place
  | .scope place => .scope place

namespace Store

def containerValues : Container → List Value
  | .list items => items
  | .map entries => entries.map (·.2)

def roots (σ : Store) : List Value :=
  σ.data.map (·.2)
    ++ (σ.scopes.toList.flatMap (fun scope => scope.own.map (·.2))
      ++ σ.shared.toList.flatMap containerValues)

/-- What stands in a value, wherever its contents are kept. -/
def inside (σ : Store) (v : Value) : List Value :=
  match σ.shape v with
  | .list items => items
  | .map entries => entries.map (·.2)
  | .plain => []

def Closes (σ : Store) (all : List Value) : Prop :=
  ∀ v ∈ all, ∀ u ∈ σ.inside v, u ∈ all

def reach (σ : Store) (v : Value) : List Value :=
  Value.partsList (v :: σ.roots)

theorem mem_reach {σ : Store} {v u : Value} :
    u ∈ σ.reach v ↔ u ∈ v.parts ∨ ∃ root ∈ σ.roots, u ∈ root.parts := by
  simp [reach, Value.mem_partsList]

theorem mem_reach_self (σ : Store) (v : Value) : v ∈ σ.reach v :=
  mem_reach.mpr (.inl v.mem_parts_self)

/-! # Reaching is closed -/

theorem mem_of_mem_put {entries : Entries Value} {key : Key} {value : Value}
    {entry : Key × Value} (h : entry ∈ entries.put key value) :
    entry.2 = value ∨ entry ∈ entries := by
  induction entries with
  | nil =>
      rw [Entries.put, List.mem_singleton] at h
      exact .inl (by rw [h])
  | cons first rest ih =>
      rcases first with ⟨k, v⟩
      rw [Entries.put] at h
      split at h
      · rcases List.mem_cons.mp h with h | h
        · exact .inl (by rw [h])
        · exact .inr (List.mem_cons_of_mem _ h)
      · rcases List.mem_cons.mp h with h | h
        · exact .inr (h ▸ List.mem_cons_self)
        · exact (ih h).imp id (List.mem_cons_of_mem _)

theorem mem_of_mem_merge {entries more : Entries Value} {v : Value}
    (h : v ∈ (entries.merge more).map (·.2)) :
    v ∈ entries.map (·.2) ∨ v ∈ more.map (·.2) := by
  induction more generalizing entries with
  | nil => exact .inl h
  | cons entry rest ih =>
      rw [Entries.merge, List.foldl_cons] at h
      rcases ih h with hput | hrest
      · rcases List.mem_map.mp hput with ⟨found, hfound, rfl⟩
        rcases mem_of_mem_put hfound with hvalue | hold
        · exact .inr (by simp [hvalue])
        · exact .inl (List.mem_map_of_mem hold)
      · exact .inr (List.mem_cons_of_mem _ hrest)

theorem mem_roots_of_mem_own {σ : Store} {place : Nat} {v : Value}
    (h : v ∈ (σ.own place).map (·.2)) : v ∈ σ.roots := by
  unfold own at h
  split at h
  · rename_i scope hscope
    have hmem : scope ∈ σ.scopes.toList := by
      rw [Array.mem_toList_iff]
      exact Array.mem_of_getElem? hscope
    apply List.mem_append_right
    apply List.mem_append_left
    exact List.mem_flatMap.mpr ⟨scope, hmem, h⟩
  · cases h

theorem mem_roots_of_mem_bindings {σ : Store} {place : Nat} {v : Value}
    (h : v ∈ (σ.bindings place).map (·.2)) : v ∈ σ.roots := by
  unfold bindings at h
  generalize σ.path place = path at h
  induction path with
  | nil =>
      rcases mem_of_mem_merge h with h | h
      · cases h
      · exact List.mem_append_left _ h
  | cons p rest ih =>
      rcases mem_of_mem_merge h with h | h
      · exact ih h
      · exact mem_roots_of_mem_own h

theorem mem_roots_of_mem_shared {σ : Store} {place : Nat} {v : Value}
    (h : v ∈ σ.inside (.shared place)) : v ∈ σ.roots := by
  have hcontainer : ∀ c, σ.shared[place]? = some c → ∀ u ∈ containerValues c, u ∈ σ.roots := by
    intro c hc u hu
    have hmem : c ∈ σ.shared.toList := by
      rw [Array.mem_toList_iff]
      exact Array.mem_of_getElem? hc
    apply List.mem_append_right
    apply List.mem_append_right
    exact List.mem_flatMap.mpr ⟨c, hmem, hu⟩
  unfold inside shape at h
  cases hfound : σ.shared[place]? with
  | none => simp [hfound] at h
  | some c =>
      apply hcontainer c hfound
      cases c <;> simpa [hfound, containerValues] using h

theorem mem_of_mem_inside {σ : Store} {v u : Value} (h : u ∈ σ.inside v) :
    u ∈ v.parts ∨ u ∈ σ.roots := by
  cases v with
  | list items =>
      have hpart : u ∈ Value.partsList items := Value.mem_partsList.mpr ⟨u, h, u.mem_parts_self⟩
      exact .inl (List.mem_cons_of_mem _ hpart)
  | map entries =>
      have hpart : u ∈ Value.partsList (entries.map (·.2)) :=
        Value.mem_partsList.mpr ⟨u, h, u.mem_parts_self⟩
      rw [← Value.partsEntries_eq_partsList] at hpart
      exact .inl (List.mem_cons_of_mem _ hpart)
  | jsonTools => exact .inl (List.mem_cons_of_mem _ h)
  | shared place => exact .inr (mem_roots_of_mem_shared h)
  | scope place => exact .inr (mem_roots_of_mem_bindings h)
  | _ => cases h

theorem closes_reach (σ : Store) (v : Value) : σ.Closes (σ.reach v) := by
  intro x hx u hu
  rw [mem_reach] at hx ⊢
  rcases mem_of_mem_inside hu with hpart | hroot
  · rcases hx with hx | ⟨root, hroot, hx⟩
    · exact .inl (v.parts_subset x hx hpart)
    · exact .inr ⟨root, hroot, root.parts_subset x hx hpart⟩
  · exact .inr ⟨u, hroot, u.mem_parts_self⟩

/-! # How many there are -/

theorem weightList_append (items more : List Value) :
    Value.weightList (items ++ more) = Value.weightList items + Value.weightList more := by
  induction items with
  | nil => simp [Value.weightList]
  | cons v rest ih => simp [Value.weightList, ih, Nat.add_assoc]

theorem weightList_flatMap_le {α : Type} {values : α → List Value} {add : Nat → α → Nat}
    (hadd : ∀ n a, n + Value.weightList (values a) ≤ add n a) (all : List α) (n : Nat) :
    n + Value.weightList (all.flatMap values) ≤ all.foldl add n := by
  induction all generalizing n with
  | nil => simp [Value.weightList]
  | cons a rest ih =>
      rw [List.flatMap_cons, weightList_append, List.foldl_cons, ← Nat.add_assoc]
      exact Nat.le_trans (Nat.add_le_add_right (hadd n a) _) (ih (add n a))

theorem weightList_roots_le (σ : Store) : Value.weightList σ.roots ≤ σ.weight := by
  have hscopes : Value.weightList (σ.scopes.toList.flatMap fun scope => scope.own.map (·.2)) ≤
      σ.scopes.foldl (fun n scope => n + 1 + Value.weightEntries scope.own) 0 := by
    rw [← Array.foldl_toList, ← Nat.zero_add (Value.weightList _)]
    apply weightList_flatMap_le
    intro n scope
    rw [← Value.weightEntries_eq_weightList]
    omega
  have hshared : Value.weightList (σ.shared.toList.flatMap containerValues) ≤
      σ.shared.foldl (fun n c => n + containerWeight c) 0 := by
    rw [← Array.foldl_toList, ← Nat.zero_add (Value.weightList _)]
    apply weightList_flatMap_le
    intro n c
    cases c with
    | list items =>
        rw [containerValues, containerWeight]
        omega
    | map entries =>
        rw [containerValues, containerWeight, ← Value.weightEntries_eq_weightList]
        omega
  rw [roots, weightList_append, weightList_append, ← Value.weightEntries_eq_weightList, weight]
  omega

theorem length_reach_le (σ : Store) (v : Value) : (σ.reach v).length ≤ v.weight + σ.weight + 1 := by
  have hroots := σ.weightList_roots_le
  rw [reach, Value.length_partsList, Value.weightList]
  omega

end Store
end Stencil
