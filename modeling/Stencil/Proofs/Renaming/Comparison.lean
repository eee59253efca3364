import Stencil.Proofs.Renaming.Store
import Stencil.Proofs.Value.Settling

/-!
# Equality and order of renamed values

Renamed values are equal to the same things and stand in the same order to them: both comparisons
look at whether two numbers of scopes or marks are one, never at the numbers. The two stores may
have different patience, which comparisons that settle do not feel.
-/

namespace Stencil

variable {ρ : Renaming}

namespace Store

/-! # Equality -/

section Equality

variable {σ τ : Store} {enter enter' : Place → Value → Except Failure Bool}

def EqualRenamed (ρ : Renaming) (σ τ : Store)
    (enter enter' : Place → Value → Except Failure Bool) (v v' : Value) : Prop :=
  Value.Renamed ρ σ.extent v v' ∧ ∀ w w', Value.Renamed ρ σ.extent w w' →
    σ.equalWith enter v w = τ.equalWith enter' v' w'

theorem equalItems_renamed {items items' others others' : List Value}
    (hitems : List.Forall₂ (EqualRenamed ρ σ τ enter enter') items items')
    (hothers : List.Forall₂ (Value.Renamed ρ σ.extent) others others') :
    σ.equalItems enter items others = τ.equalItems enter' items' others' := by
  induction hitems generalizing others others' with
  | nil => rfl
  | cons hv _ ih =>
      cases hothers with
      | nil => rfl
      | cons hw hrest =>
          rw [equalItems, equalItems, hv.1.identical_eq hw, hv.2 _ _ hw, ih hrest]

theorem equalEntries_renamed {entries entries' others others' : Entries Value}
    (hentries : List.Forall₂
      (fun a b => a.1.Renamed ρ σ.extent b.1 ∧ EqualRenamed ρ σ τ enter enter' a.2 b.2)
      entries entries')
    (hothers : Entries.Renamed ρ σ.extent others others') :
    σ.equalEntries enter entries others = τ.equalEntries enter' entries' others' := by
  induction hentries with
  | nil => rfl
  | @cons entry entry' _ _ hentry _ ih =>
      rcases entry with ⟨key, v⟩
      rcases entry' with ⟨key', v'⟩
      rcases hentry with ⟨hkey, hv⟩
      rw [equalEntries, equalEntries]
      rcases rel_cases (hothers.get? hkey.2) with ⟨ha, hb⟩ | ⟨w, w', ha, hb, hw⟩
      · rw [ha, hb]
      · rw [ha, hb]
        dsimp only
        rw [hv.1.identical_eq hw, hv.2 _ _ hw, ih]

variable (h : Mirrors ρ σ τ)

include h

theorem Mirrors.equalTools {w w' : Value} (hw : Value.Renamed ρ σ.extent w w') :
    σ.equalWith enter .jsonTools w = τ.equalWith enter' .jsonTools w' := by
  rw [equalWith, equalWith]
  rcases rel_cases (h.entries? hw) with ⟨ha, hb⟩ | ⟨others, others', ha, hb, hothers⟩
  · rw [ha, hb]
  · rw [ha, hb]
    dsimp only
    rw [hothers.length_eq]
    congr 2
    simp only [Value.jsonToolEntries, List.all_cons, List.all_nil, Bool.and_true]
    congr 1
    · rcases rel_cases (hothers.get? (Key.renamed_str ρ σ.extent "stringify").2) with
        ⟨hc, hd⟩ | ⟨u, u', hc, hd, hu⟩
      · rw [hc, hd]
      · rw [hc, hd]
        exact (Value.Renamed.plainEqual_eq (.constant rfl) hu).symm
    · rcases rel_cases (hothers.get? (Key.renamed_str ρ σ.extent "parse").2) with
        ⟨hc, hd⟩ | ⟨u, u', hc, hd, hu⟩
      · rw [hc, hd]
      · rw [hc, hd]
        exact (Value.Renamed.plainEqual_eq (.constant rfl) hu).symm

theorem Mirrors.equalWith_eq
    (henter : ∀ p w w', p.Within σ.extent → Value.Renamed ρ σ.extent w w' →
      enter p w = enter' (p.rename ρ) w') {v v' : Value}
    (hv : Value.Renamed ρ σ.extent v v') :
    ∀ w w', Value.Renamed ρ σ.extent w w' →
      σ.equalWith enter v w = τ.equalWith enter' v' w' := by
  refine Value.Renamed.induction ?constant ?float ?shared ?scope ?list ?map ?host hv
  case constant =>
    intro v hv w w' hw
    cases v with
    | jsonTools => exact h.equalTools hw
    | list => cases hv
    | map => cases hv
    | shared => cases hv
    | scope => cases hv
    | _ =>
        simp only [equalWith]
        rw [Value.Renamed.plainEqual_eq (.constant hv) hw]
  case float =>
    intro x hx w w' hw
    simp only [equalWith]
    rw [Value.Renamed.plainEqual_eq (.float hx) hw]
  case shared =>
    intro place hplace w w' hw
    rw [equalWith, equalWith]
    exact henter (.shared place) w w' hplace hw
  case scope =>
    intro place hplace w w' hw
    rw [equalWith, equalWith]
    exact henter (.scope place) w w' hplace hw
  case list =>
    intro items items' hitems w w' hw
    rw [equalWith, equalWith]
    rcases rel_cases (h.items? hw) with ⟨ha, hb⟩ | ⟨others, others', ha, hb, hothers⟩
    · rw [ha, hb]
    · rw [ha, hb]
      dsimp only
      rw [hitems.length_eq, hothers.length_eq, equalItems_renamed hitems hothers]
  case map =>
    intro entries entries' hentries w w' hw
    rw [equalWith, equalWith]
    rcases rel_cases (h.entries? hw) with ⟨ha, hb⟩ | ⟨others, others', ha, hb, hothers⟩
    · rw [ha, hb]
    · rw [ha, hb]
      dsimp only
      rw [hentries.length_eq, hothers.length_eq, equalEntries_renamed hentries hothers]
  case host =>
    intro id type text attributes attributes' hattributes w w' hw
    have hself : Value.Renamed ρ σ.extent (.host id type text attributes)
        (.host id type text attributes') :=
      .ofAttributes (hattributes.imp fun _ _ hentry => ⟨hentry.1, hentry.2.1⟩)
    simp only [equalWith]
    rw [hself.plainEqual_eq hw]

theorem Mirrors.equalPlace_eq (left : Nat) :
    ∀ p w w', p.Within σ.extent → Value.Renamed ρ σ.extent w w' →
      σ.equalPlace left p w = τ.equalPlace left (p.rename ρ) w' := by
  induction left with
  | zero => exact fun _ _ _ _ _ => rfl
  | succ left ih =>
      intro p w w' hp hw
      rw [equalPlace, equalPlace]
      exact h.equalWith_eq ih (h.contents hp) w w' hw

theorem Mirrors.equal_eq {v v' w w' : Value} (hv : Value.Renamed ρ σ.extent v v')
    (hw : Value.Renamed ρ σ.extent w w') : σ.equal v w = τ.equal v' w' := by
  have hleft := Nat.le_max_left (σ.patience v w) (τ.patience v' w')
  have hright := Nat.le_max_right (σ.patience v w) (τ.patience v' w')
  rw [equal_eq_of_le hleft, equal_eq_of_le hright]
  exact h.equalWith_eq (h.equalPlace_eq _) hv w w' hw

end Equality

/-! # The equality operators -/

theorem asNumbers_rename (ρ : Renaming) (x : Number) (s : Text) :
    looseEqual.asNumbers (x.rename ρ) s = looseEqual.asNumbers x s := by
  cases x with
  | int n => rw [Number.rename]
  | float x =>
      have hcompare := Binary64.ignoresMarks_compare?.left ρ x
      unfold looseEqual.asNumbers
      cases s.string?.bind NumberText.float? with
      | none => rfl
      | some b => exact congrArg (fun order => Except.ok (order == some .eq)) (hcompare b)

section Operators

variable {σ τ : Store} (h : Mirrors ρ σ τ) {v v' w w' : Value}
  (hv : Value.Renamed ρ σ.extent v v') (hw : Value.Renamed ρ σ.extent w w')

include h hv hw

theorem Mirrors.looseEqual_eq : σ.looseEqual v w = τ.looseEqual v' w' := by
  rw [looseEqual_def, looseEqual_def, hv.isNullish_eq, hw.isNullish_eq, hv.number?_eq,
    hw.number?_eq, hv.text?_eq, hw.text?_eq, h.equal_eq hv hw]
  cases v.number? <;> cases w.number? <;> cases v.text? <;> cases w.text? <;>
    simp [asNumbers_rename]

theorem Mirrors.strictEqual_eq : σ.strictEqual v w = τ.strictEqual v' w' := by
  rw [strictEqual_def, strictEqual_def, hv.isUndefined_eq, hw.isUndefined_eq, hv.isNullish_eq,
    hw.isNullish_eq, hv.isBool_eq, hw.isBool_eq, hv.number?_eq, hw.number?_eq, h.equal_eq hv hw,
    Option.isSome_map, Option.isSome_map]

end Operators

/-! # Order -/

section Order

variable {σ τ : Store} (h : Mirrors ρ σ τ) (op : ComparisonOp)
  {enter enter' : Place → Value → Except Failure Bool}

def OrderRenamed (ρ : Renaming) (σ τ : Store) (op : ComparisonOp)
    (enter enter' : Place → Value → Except Failure Bool) (v v' : Value) : Prop :=
  Value.Renamed ρ σ.extent v v' ∧ ∀ w w', Value.Renamed ρ σ.extent w w' →
    σ.compareWith op enter v w = τ.compareWith op enter' v' w'

include h

theorem Mirrors.plainCompare_eq {v v' w w' : Value} (hv : Value.Renamed ρ σ.extent v v')
    (hw : Value.Renamed ρ σ.extent w w') :
    σ.plainCompare op v w = τ.plainCompare op v' w' := by
  rw [plainCompare_def, plainCompare_def, hv.text?_eq, hw.text?_eq, hv.number?_eq,
    hw.number?_eq, h.typeName_eq hv, h.typeName_eq hw]
  cases v.number? <;> cases w.number? <;> simp

theorem Mirrors.compareItems_eq {items items' others others' : List Value}
    (hitems : List.Forall₂ (OrderRenamed ρ σ τ op enter enter') items items')
    (hothers : List.Forall₂ (Value.Renamed ρ σ.extent) others others') :
    σ.compareItems op enter items others = τ.compareItems op enter' items' others' := by
  induction hitems generalizing others others' with
  | nil => rw [compareItems, compareItems, hothers.length_eq]
  | cons hv hrest ih =>
      cases hothers with
      | nil => rw [compareItems, compareItems, hrest.length_eq]
      | cons hw hmore =>
          rw [compareItems, compareItems, hv.1.identical_eq hw, h.equal_eq hv.1 hw,
            hv.2 _ _ hw, ih hmore]

theorem Mirrors.compareWith_eq
    (henter : ∀ p w w', p.Within σ.extent → Value.Renamed ρ σ.extent w w' →
      enter p w = enter' (p.rename ρ) w') {v v' : Value}
    (hv : Value.Renamed ρ σ.extent v v') :
    ∀ w w', Value.Renamed ρ σ.extent w w' →
      σ.compareWith op enter v w = τ.compareWith op enter' v' w' := by
  refine Value.Renamed.induction ?constant ?float ?shared ?scope ?list ?map ?host hv
  case constant =>
    intro v hv w w' hw
    cases v with
    | list => cases hv
    | shared => cases hv
    | _ =>
        simp only [compareWith]
        exact h.plainCompare_eq op (.constant hv) hw
  case float =>
    intro x hx w w' hw
    simp only [compareWith]
    exact h.plainCompare_eq op (.float hx) hw
  case shared =>
    intro place hplace w w' hw
    rw [compareWith, compareWith]
    exact henter (.shared place) w w' hplace hw
  case scope =>
    intro place hplace w w' hw
    simp only [compareWith]
    exact h.plainCompare_eq op (.scope hplace) hw
  case list =>
    intro items items' hitems w w' hw
    rw [compareWith, compareWith]
    rcases rel_cases (h.items? hw) with ⟨ha, hb⟩ | ⟨others, others', ha, hb, hothers⟩
    · rw [ha, hb]
      dsimp only
      rw [h.typeName_eq hw]
    · rw [ha, hb]
      exact h.compareItems_eq op hitems hothers
  case map =>
    intro entries entries' hentries w w' hw
    have hself : Value.Renamed ρ σ.extent (.map entries) (.map entries') :=
      .ofEntries (hentries.imp fun _ _ hentry => ⟨hentry.1, hentry.2.1⟩)
    simp only [compareWith]
    exact h.plainCompare_eq op hself hw
  case host =>
    intro id type text attributes attributes' hattributes w w' hw
    have hself : Value.Renamed ρ σ.extent (.host id type text attributes)
        (.host id type text attributes') :=
      .ofAttributes (hattributes.imp fun _ _ hentry => ⟨hentry.1, hentry.2.1⟩)
    simp only [compareWith]
    exact h.plainCompare_eq op hself hw

theorem Mirrors.comparePlace_eq (left : Nat) :
    ∀ p w w', p.Within σ.extent → Value.Renamed ρ σ.extent w w' →
      σ.comparePlace op left p w = τ.comparePlace op left (p.rename ρ) w' := by
  induction left with
  | zero => exact fun _ _ _ _ _ => rfl
  | succ left ih =>
      intro p w w' hp hw
      rw [comparePlace, comparePlace]
      exact h.compareWith_eq op ih (h.contents hp) w w' hw

theorem Mirrors.compareValues_eq {v v' w w' : Value} (hv : Value.Renamed ρ σ.extent v v')
    (hw : Value.Renamed ρ σ.extent w w') :
    σ.compareValues op v w = τ.compareValues op v' w' := by
  have hleft := compareWith_eq_of_le op (Nat.le_max_left (σ.patience v w) (τ.patience v' w'))
  have hright := compareWith_eq_of_le op (Nat.le_max_right (σ.patience v w) (τ.patience v' w'))
  have hsame : σ.compareWith op (σ.comparePlace op (σ.patience v w)) v w =
      τ.compareWith op (τ.comparePlace op (τ.patience v' w')) v' w' := by
    rw [hleft, hright]
    exact h.compareWith_eq op (h.comparePlace_eq op _) hv w w' hw
  rw [compareValues, compareValues, hv.isNullish_eq, hw.isNullish_eq]
  exact congrArg (fun rest => if v.isNullish || w.isNullish then .ok false else rest) hsame

end Order
end Store
end Stencil
