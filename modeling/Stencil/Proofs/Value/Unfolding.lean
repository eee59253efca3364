import Mathlib
import Stencil.Proofs.Value.Reaching

/-!
# Equality by what stands in values

A comparison is told by the comparisons of what stands in its values. Where these are all decided
it is decided: lists are equal if they are so element by element, mappings if each key of one finds
in the other what is equal to its own, and other values by themselves.
-/

namespace Stencil

/-! # Places opened -/

namespace Store

/-- A value with its contents in itself. -/
def opened (σ : Store) : Value → Value
  | .shared place => σ.contents (.shared place)
  | .scope place => σ.contents (.scope place)
  | .jsonTools => .map Value.jsonToolEntries
  | v => v

variable {σ : Store} {v w : Value}

theorem opened_of_list {items : List Value} (h : σ.shape v = .list items) :
    σ.opened v = .list items := by
  cases v with
  | list =>
      cases h
      rfl
  | shared place => rw [opened, contents, h]
  | _ => cases h

theorem opened_of_map {entries : Entries Value} (h : σ.shape v = .map entries) :
    σ.opened v = .map entries := by
  cases v with
  | map =>
      cases h
      rfl
  | jsonTools =>
      cases h
      rfl
  | scope =>
      cases h
      rfl
  | shared place => rw [opened, contents, h]
  | _ => cases h

theorem items?_of_shape {items : List Value} (h : σ.shape v = .list items) :
    σ.items? v = some items := by
  rw [items?, h]

theorem entries?_of_shape {entries : Entries Value} (h : σ.shape v = .map entries) :
    σ.entries? v = some entries := by
  rw [entries?, h]

def DecidedBy (σ : Store) (enter : Place → Value → Except Failure Bool)
    (f : Value → Value → Bool) (left right : List Value) : Prop :=
  ∀ a ∈ left, ∀ b ∈ right, σ.equalWith enter a b = .ok (f a b)

section Walk

variable {enter : Place → Value → Except Failure Bool} {f : Value → Value → Bool}

theorem equalItems_of_decided {items others : List Value}
    (h : σ.DecidedBy enter f items others) :
    σ.equalItems enter items others =
      .ok ((items.zip others).all fun pair => pair.1.identical pair.2 || f pair.1 pair.2) := by
  induction items generalizing others with
  | nil =>
      rw [equalItems]
      · rfl
      · simp
  | cons a rest ih =>
      cases others with
      | nil =>
          rw [equalItems]
          · rfl
          · simp
      | cons b others =>
          have hhead := h a List.mem_cons_self b List.mem_cons_self
          have hrest := ih fun a ha b hb =>
            h a (List.mem_cons_of_mem _ ha) b (List.mem_cons_of_mem _ hb)
          rw [equalItems, hhead, hrest, List.zip_cons_cons, List.all_cons]
          cases a.identical b <;> cases f a b <;> rfl

theorem equalEntries_of_decided {entries others : Entries Value}
    (h : σ.DecidedBy enter f (entries.map (·.2)) (others.map (·.2))) :
    σ.equalEntries enter entries others =
      .ok (entries.all fun entry =>
        (others.get? entry.1).any fun b => entry.2.identical b || f entry.2 b) := by
  induction entries with
  | nil => rfl
  | cons entry rest ih =>
      rcases entry with ⟨key, a⟩
      have hrest := ih fun a ha => h a (List.mem_cons_of_mem _ ha)
      rw [equalEntries, List.all_cons]
      cases hfound : others.get? key with
      | none => rfl
      | some b =>
          have hhead := h a List.mem_cons_self b (mem_values_of_get? hfound)
          dsimp only
          rw [hhead, hrest, Option.any_some]
          cases a.identical b <;> cases f a b <;> rfl

theorem identical_callable (g : Callable) (w : Value) : (Value.callable g).identical w = false := by
  cases w <;> rfl

theorem equalWith_jsonTools (w : Value) :
    σ.equalWith enter .jsonTools w = σ.equalWith enter (.map Value.jsonToolEntries) w := by
  rw [equalWith, equalWith]
  cases hothers : σ.entries? w with
  | none => rfl
  | some others =>
      have hdecided : σ.DecidedBy enter Value.plainEqual (Value.jsonToolEntries.map (·.2))
          (others.map (·.2)) := by
        intro a ha b _
        simp only [Value.jsonToolEntries, List.map_cons, List.map_nil, List.mem_cons,
          List.not_mem_nil, or_false] at ha
        rcases ha with rfl | rfl <;> rfl
      dsimp only
      rw [equalEntries_of_decided hdecided]
      simp only [Value.jsonToolEntries, List.length_cons, List.length_nil, List.all_cons,
        List.all_nil, identical_callable, Bool.false_or]
      rw [Bool.beq_comm]
      cases 0 + 1 + 1 == others.length <;> cases others.get? (.str "stringify") <;>
        cases others.get? (.str "parse") <;> rfl

end Walk

/-! # Comparisons opened -/

theorem equal_opened {n : Nat} (hn : σ.patience v w ≤ n) :
    σ.equal v w = σ.equalWith (σ.equalPlace n) (σ.opened v) w := by
  have hnext : σ.equal v w = σ.equalWith (σ.equalPlace (n + 1)) v w := equal_eq_of_le (by omega)
  cases v with
  | shared place =>
      rw [hnext, equalWith]
      rfl
  | scope place =>
      rw [hnext, equalWith]
      rfl
  | jsonTools =>
      rw [equal_eq_of_le hn, equalWith_jsonTools]
      rfl
  | _ => exact equal_eq_of_le hn

variable (σ) in
theorem exists_patience (left right : List Value) :
    ∃ n, ∀ a ∈ left, ∀ b ∈ right, σ.patience a b ≤ n := by
  refine ⟨((left ×ˢ right).map fun pair => σ.patience pair.1 pair.2).sum, fun a ha b hb => ?_⟩
  have hpair : (a, b) ∈ left ×ˢ right := List.mem_product.mpr ⟨ha, hb⟩
  exact List.le_sum_of_mem (List.mem_map_of_mem hpair)

theorem exists_decided {f : Value → Value → Bool} {left right : List Value} (m : Nat)
    (h : ∀ a ∈ left, ∀ b ∈ right, σ.equal a b = .ok (f a b)) :
    ∃ n, m ≤ n ∧ σ.DecidedBy (σ.equalPlace n) f left right := by
  rcases σ.exists_patience left right with ⟨n, hn⟩
  refine ⟨max m n, Nat.le_max_left m n, fun a ha b hb => ?_⟩
  rw [← equal_eq_of_le ((hn a ha b hb).trans (Nat.le_max_right m n))]
  exact h a ha b hb

theorem equal_of_list {items others : List Value} {f : Value → Value → Bool}
    (hv : σ.shape v = .list items) (hw : σ.shape w = .list others)
    (h : ∀ a ∈ items, ∀ b ∈ others, σ.equal a b = .ok (f a b)) :
    σ.equal v w = .ok (items.length == others.length &&
      (items.zip others).all fun pair => pair.1.identical pair.2 || f pair.1 pair.2) := by
  rcases exists_decided (σ.patience v w) h with ⟨n, hn, hdecided⟩
  rw [equal_opened hn, opened_of_list hv, equalWith, items?_of_shape hw]
  dsimp only
  rw [equalItems_of_decided hdecided]
  cases items.length == others.length <;> rfl

theorem equal_of_map {entries others : Entries Value} {f : Value → Value → Bool}
    (hv : σ.shape v = .map entries) (hw : σ.shape w = .map others)
    (h : ∀ a ∈ entries.map (·.2), ∀ b ∈ others.map (·.2), σ.equal a b = .ok (f a b)) :
    σ.equal v w = .ok (entries.length == others.length &&
      entries.all fun entry =>
        (others.get? entry.1).any fun b => entry.2.identical b || f entry.2 b) := by
  rcases exists_decided (σ.patience v w) h with ⟨n, hn, hdecided⟩
  rw [equal_opened hn, opened_of_map hv, equalWith, entries?_of_shape hw]
  dsimp only
  rw [equalEntries_of_decided hdecided]
  cases entries.length == others.length <;> rfl

theorem equal_of_plain (hv : σ.shape v = .plain) (hplace : v.place? = none) (w : Value) :
    σ.equal v w = .ok (v.plainEqual w) := by
  cases v with
  | shared => cases hplace
  | list => cases hv
  | map => cases hv
  | jsonTools => cases hv
  | scope => cases hv
  | _ => rfl

theorem plainEqual_of_shape (hw : σ.shape w ≠ .plain) (v : Value) : v.plainEqual w = false := by
  cases w with
  | list => cases v <;> rfl
  | map => cases v <;> rfl
  | jsonTools => cases v <;> rfl
  | scope => cases v <;> rfl
  | shared => cases v <;> rfl
  | _ => exact absurd rfl hw

def Shape.SameKind : Shape → Shape → Prop
  | .list _, .list _ => True
  | .map _, .map _ => True
  | .plain, .plain => True
  | _, _ => False

theorem Shape.SameKind.symm {s t : Shape} (h : s.SameKind t) : t.SameKind s := by
  cases s <;> cases t <;> exact h

theorem equal_of_unlike (hplace : σ.shape v = .plain → v.place? = none)
    (h : ¬ (σ.shape v).SameKind (σ.shape w)) : σ.equal v w = .ok false := by
  cases hv : σ.shape v with
  | plain =>
      have hw : σ.shape w ≠ .plain := by
        intro hw
        exact h (by rw [hv, hw]; trivial)
      rw [equal_of_plain hv (hplace hv), plainEqual_of_shape hw]
  | list items =>
      have hitems : σ.items? w = none := by
        rw [hv] at h
        rw [items?]
        cases hw : σ.shape w with
        | list => exact absurd (by rw [hw]; trivial) h
        | _ => rfl
      rw [equal_opened (Nat.le_refl _), opened_of_list hv, equalWith, hitems]
  | map entries =>
      have hentries : σ.entries? w = none := by
        rw [hv] at h
        rw [entries?]
        cases hw : σ.shape w with
        | map => exact absurd (by rw [hw]; trivial) h
        | _ => rfl
      rw [equal_opened (Nat.le_refl _), opened_of_map hv, equalWith, hentries]

end Store
end Stencil
