import Stencil.Proofs.Sandbox.Store

/-!
# Equality and order of alike values

Alike values are equal to the same things and stand in the same order to them: both
comparisons look at the kind, the identity and the elements of values, never at the
attributes of an object.
-/

namespace Stencil

/-! # Weights -/

namespace Value

theorem weightList_eq {items others : List Value}
    (h : List.Forall₂ (fun v w => v.weight = w.weight) items others) :
    weightList items = weightList others := by
  induction h with
  | nil => rfl
  | cons hhead _ ih => rw [weightList, weightList, hhead, ih]

theorem weightEntries_eq_weightList (entries : List (Key × Value)) :
    weightEntries entries = weightList (entries.map (·.2)) := by
  induction entries with
  | nil => rfl
  | cons entry rest ih => rw [weightEntries, List.map_cons, weightList, ih]

theorem Alike.weight_eq {v w : Value} (h : Alike v w) : v.weight = w.weight := by
  induction h with
  | atom => rfl
  | list hlength _ ih =>
      rw [weight, weight, weightList_eq (List.forall₂_iff_get.mpr ⟨hlength, ih⟩)]
  | @map entries others hkeys _ ih =>
      have hlength : (entries.map (·.2)).length = (others.map (·.2)).length := by
        simpa using congrArg List.length hkeys
      rw [weight, weight, weightEntries_eq_weightList, weightEntries_eq_weightList,
        weightList_eq (List.forall₂_iff_get.mpr ⟨hlength, ih⟩)]
  | host => rfl

end Value

theorem Entries.Alike.weight_eq {entries others : Entries Value}
    (h : Entries.Alike entries others) :
    Value.weightEntries entries = Value.weightEntries others := by
  have hmap := (Value.Alike.ofEntries h).weight_eq
  simpa [Value.weight] using hmap

theorem Container.Alike.weight_eq {c d : Container} (h : c.Alike d) :
    Store.containerWeight c = Store.containerWeight d := by
  cases h with
  | list hitems =>
      have hlist := (Value.Alike.ofItems hitems).weight_eq
      simpa [Value.weight, Store.containerWeight] using hlist
  | map hentries => simp only [Store.containerWeight, hentries.weight_eq]

theorem foldl_eq_of_forall₂ {α β : Type} {R : α → α → Prop} {f : β → α → β}
    (hf : ∀ b x y, R x y → f b x = f b y) {l m : List α} (h : List.Forall₂ R l m) (b : β) :
    l.foldl f b = m.foldl f b := by
  induction h generalizing b with
  | nil => rfl
  | cons hhead _ ih => rw [List.foldl_cons, List.foldl_cons, hf b _ _ hhead, ih]

namespace Store

theorem Alike.weight_eq {σ τ : Store} (h : σ.Alike τ) : σ.weight = τ.weight := by
  have hscopes : σ.scopes.foldl (fun n scope => n + 1 + Value.weightEntries scope.own) 0 =
      τ.scopes.foldl (fun n scope => n + 1 + Value.weightEntries scope.own) 0 := by
    rw [← Array.foldl_toList, ← Array.foldl_toList]
    refine foldl_eq_of_forall₂ ?_ h.scopes 0
    intro n s t hscope
    rw [hscope.own.weight_eq]
  have hshared : σ.shared.foldl (fun n c => n + containerWeight c) 0 =
      τ.shared.foldl (fun n c => n + containerWeight c) 0 := by
    rw [← Array.foldl_toList, ← Array.foldl_toList]
    refine foldl_eq_of_forall₂ ?_ h.shared 0
    intro n c d hcontainer
    rw [hcontainer.weight_eq]
  rw [Store.weight, Store.weight, h.data.weight_eq, hscopes, hshared]

theorem Alike.patience_eq {σ τ : Store} (h : σ.Alike τ) {v v' w w' : Value}
    (hv : Value.Alike v v') (hw : Value.Alike w w') :
    σ.patience v w = τ.patience v' w' := by
  rw [patience, patience, hv.weight_eq, hw.weight_eq, h.weight_eq]

end Store

/-! # Values from outside -/

namespace Value

def facade : Value → Value
  | list _ => list []
  | map _ => map []
  | host id type text _ => host id type text []
  | v => v

theorem Alike.facade_eq {v w : Value} (h : Alike v w) : v.facade = w.facade := by
  cases h <;> rfl

theorem plainEqual_facade (v w : Value) : v.plainEqual w = v.facade.plainEqual w.facade := by
  cases v <;> cases w <;> rfl

theorem identical_facade (v w : Value) : v.identical w = v.facade.identical w.facade := by
  cases v with
  | float x => cases x <;> cases w <;> rfl
  | _ => cases w <;> rfl

theorem Alike.plainEqual_eq {v v' w w' : Value} (hv : Alike v v') (hw : Alike w w') :
    v.plainEqual w = v'.plainEqual w' := by
  rw [plainEqual_facade, hv.facade_eq, hw.facade_eq, ← plainEqual_facade]

theorem Alike.identical_eq {v v' w w' : Value} (hv : Alike v v') (hw : Alike w w') :
    v.identical w = v'.identical w' := by
  rw [identical_facade, hv.facade_eq, hw.facade_eq, ← identical_facade]

end Value

/-! # Equality -/

namespace Store

section Equality

variable {σ τ : Store} (h : σ.Alike τ) {enter enter' : Place → Value → Except Failure Bool}

def EqualAlike (σ τ : Store) (enter enter' : Place → Value → Except Failure Bool)
    (v v' : Value) : Prop :=
  Value.Alike v v' ∧ ∀ w w', Value.Alike w w' →
    σ.equalWith enter v w = τ.equalWith enter' v' w'

theorem equalItems_eq {items items' others others' : List Value}
    (hitems : List.Forall₂ (EqualAlike σ τ enter enter') items items')
    (hothers : List.Forall₂ Value.Alike others others') :
    σ.equalItems enter items others = τ.equalItems enter' items' others' := by
  induction hitems generalizing others others' with
  | nil => rfl
  | cons hv _ ih =>
      cases hothers with
      | nil => rfl
      | cons hw hrest =>
          rw [equalItems, equalItems, hv.1.identical_eq hw, hv.2 _ _ hw, ih hrest]

theorem equalEntries_eq {entries entries' : List (Key × Value)} {others others' : Entries Value}
    (hentries : List.Forall₂ (fun a b => a.1 = b.1 ∧ EqualAlike σ τ enter enter' a.2 b.2)
      entries entries')
    (hothers : Entries.Alike others others') :
    σ.equalEntries enter entries others = τ.equalEntries enter' entries' others' := by
  induction hentries with
  | nil => rfl
  | @cons entry entry' _ _ hentry _ ih =>
      rcases entry with ⟨key, v⟩
      rcases entry' with ⟨key', v'⟩
      rcases hentry with ⟨hkey, hv⟩
      simp only at hkey hv
      subst hkey
      rw [equalEntries, equalEntries]
      rcases rel_cases (hothers.get? key) with ⟨ha, hb⟩ | ⟨w, w', ha, hb, hw⟩
      · rw [ha, hb]
      · rw [ha, hb]
        dsimp only
        rw [hv.1.identical_eq hw, hv.2 _ _ hw, ih]

include h

theorem equalWith_eq
    (henter : ∀ p w w', Value.Alike w w' → enter p w = enter' p w') {v v' w w' : Value}
    (hv : Value.Alike v v') (hw : Value.Alike w w') :
    σ.equalWith enter v w = τ.equalWith enter' v' w' := by
  induction hv generalizing w w' with
  | @atom v hatom =>
      cases v with
      | list => cases hatom
      | map => cases hatom
      | host => cases hatom
      | jsonTools =>
          rw [equalWith, equalWith]
          rcases rel_cases (h.entries? hw) with ⟨ha, hb⟩ | ⟨others, others', ha, hb, hothers⟩
          · rw [ha, hb]
          · rw [ha, hb]
            dsimp only
            rw [hothers.length_eq]
            congr 3
            funext entry
            rcases rel_cases (hothers.get? entry.1) with ⟨hc, hd⟩ | ⟨u, u', hc, hd, hu⟩
            · rw [hc, hd]
            · rw [hc, hd]
              exact (Value.Alike.refl entry.2).plainEqual_eq hu
      | shared place =>
          rw [equalWith, equalWith]
          exact henter _ _ _ hw
      | scope place =>
          rw [equalWith, equalWith]
          exact henter _ _ _ hw
      | _ =>
          simp only [equalWith]
          rw [Value.Alike.plainEqual_eq (.atom rfl) hw]
  | @list items items' hlength hget ih =>
      have hitems : List.Forall₂ (EqualAlike σ τ enter enter') items items' := by
        rw [List.forall₂_iff_get]
        exact ⟨hlength, fun i hi hk => ⟨hget i hi hk, fun w w' hw => ih i hi hk hw⟩⟩
      rw [equalWith, equalWith]
      rcases rel_cases (h.items? hw) with ⟨ha, hb⟩ | ⟨others, others', ha, hb, hothers⟩
      · rw [ha, hb]
      · rw [ha, hb]
        dsimp only
        rw [hlength, hothers.length_eq, equalItems_eq hitems hothers]
  | @map entries entries' hkeys hget ih =>
      have hlength : (entries.map (·.2)).length = (entries'.map (·.2)).length := by
        simpa using congrArg List.length hkeys
      have hvalues : List.Forall₂ (EqualAlike σ τ enter enter') (entries.map (·.2))
          (entries'.map (·.2)) := by
        rw [List.forall₂_iff_get]
        exact ⟨hlength, fun i hi hk => ⟨hget i hi hk, fun w w' hw => ih i hi hk hw⟩⟩
      rw [List.length_map, List.length_map] at hlength
      rw [equalWith, equalWith]
      rcases rel_cases (h.entries? hw) with ⟨ha, hb⟩ | ⟨others, others', ha, hb, hothers⟩
      · rw [ha, hb]
      · rw [ha, hb]
        dsimp only
        rw [hlength, hothers.length_eq, equalEntries_eq (forall₂_labelled hkeys hvalues) hothers]
  | host hnames hvalues =>
      simp only [equalWith]
      rw [Value.Alike.plainEqual_eq (.host hnames hvalues) hw]

theorem equalPlace_eq (left : Nat) (p : Place) {w w' : Value} (hw : Value.Alike w w') :
    σ.equalPlace left p w = τ.equalPlace left p w' := by
  induction left generalizing p w w' with
  | zero => rfl
  | succ left ih =>
      rw [equalPlace, equalPlace]
      exact equalWith_eq h (fun p w w' hw => ih p hw) (h.contents p) hw

theorem Alike.equal_eq {v v' w w' : Value} (hv : Value.Alike v v') (hw : Value.Alike w w') :
    σ.equal v w = τ.equal v' w' := by
  rw [equal, equal, h.patience_eq hv hw]
  exact equalWith_eq h (fun p w w' hw => equalPlace_eq h _ p hw) hv hw

end Equality

/-! # The equality operators -/

theorem looseEqual_def (σ : Store) (v w : Value) :
    σ.looseEqual v w =
      if v.isNullish || w.isNullish then .ok (v.isNullish && w.isNullish)
      else
        match v.number?, w.text? with
        | some x, some s => looseEqual.asNumbers x s
        | _, _ =>
            match v.text?, w.number? with
            | some s, some y => looseEqual.asNumbers y s
            | _, _ => σ.equal v w := by
  cases v <;> cases w <;> rfl

theorem strictEqual_def (σ : Store) (v w : Value) :
    σ.strictEqual v w =
      if v.isUndefined then .ok w.isUndefined
      else if w.isUndefined then .ok false
      else if v.isNullish then .ok w.isNullish
      else if w.isNullish then .ok false
      else if v.isBool != w.isBool then .ok false
      else if v.number?.isSome != w.number?.isSome then .ok false
      else σ.equal v w := by
  cases v <;> cases w <;> rfl

section Operators

variable {σ τ : Store} (h : σ.Alike τ) {v v' w w' : Value} (hv : Value.Alike v v')
  (hw : Value.Alike w w')

include h hv hw

theorem Alike.looseEqual_eq : σ.looseEqual v w = τ.looseEqual v' w' := by
  rw [looseEqual_def, looseEqual_def, hv.isNullish_eq, hw.isNullish_eq, hv.number?_eq,
    hw.number?_eq, hv.text?_eq, hw.text?_eq, h.equal_eq hv hw]

theorem Alike.strictEqual_eq : σ.strictEqual v w = τ.strictEqual v' w' := by
  rw [strictEqual_def, strictEqual_def, hv.isUndefined_eq, hw.isUndefined_eq, hv.isNullish_eq,
    hw.isNullish_eq, hv.isBool_eq, hw.isBool_eq, hv.number?_eq, hw.number?_eq, h.equal_eq hv hw]

end Operators

/-! # Order -/

theorem plainCompare_def (σ : Store) (op : ComparisonOp) (v w : Value) :
    σ.plainCompare op v w =
      match v.text?, w.text? with
      | some s, some t => .ok (op.holds (s.order t))
      | _, _ =>
          match v.number?, w.number? with
          | some x, some y =>
              .ok (match x.compare? y with
                | some order => op.holds order
                | none => false)
          | _, _ => .error (.unordered (σ.typeName v) (σ.typeName w)) := by
  cases v <;> cases w <;> rfl

section Order

variable {σ τ : Store} (h : σ.Alike τ) (op : ComparisonOp)
  {enter enter' : Place → Value → Except Failure Bool}

def OrderAlike (σ τ : Store) (op : ComparisonOp)
    (enter enter' : Place → Value → Except Failure Bool) (v v' : Value) : Prop :=
  Value.Alike v v' ∧ ∀ w w', Value.Alike w w' →
    σ.compareWith op enter v w = τ.compareWith op enter' v' w'

include h

theorem Alike.plainCompare_eq {v v' w w' : Value} (hv : Value.Alike v v')
    (hw : Value.Alike w w') :
    σ.plainCompare op v w = τ.plainCompare op v' w' := by
  rw [plainCompare_def, plainCompare_def, hv.text?_eq, hw.text?_eq, hv.number?_eq,
    hw.number?_eq, h.typeName_eq hv, h.typeName_eq hw]

theorem compareItems_eq {items items' others others' : List Value}
    (hitems : List.Forall₂ (OrderAlike σ τ op enter enter') items items')
    (hothers : List.Forall₂ Value.Alike others others') :
    σ.compareItems op enter items others = τ.compareItems op enter' items' others' := by
  induction hitems generalizing others others' with
  | nil => rw [compareItems, compareItems, hothers.length_eq]
  | cons hv hrest ih =>
      cases hothers with
      | nil => rw [compareItems, compareItems, hrest.length_eq]
      | cons hw hmore =>
          rw [compareItems, compareItems, hv.1.identical_eq hw, h.equal_eq hv.1 hw,
            hv.2 _ _ hw, ih hmore]

theorem compareWith_eq
    (henter : ∀ p w w', Value.Alike w w' → enter p w = enter' p w') {v v' w w' : Value}
    (hv : Value.Alike v v') (hw : Value.Alike w w') :
    σ.compareWith op enter v w = τ.compareWith op enter' v' w' := by
  induction hv generalizing w w' with
  | @atom v hatom =>
      cases v with
      | list => cases hatom
      | map => cases hatom
      | host => cases hatom
      | shared place =>
          rw [compareWith, compareWith]
          exact henter _ _ _ hw
      | _ =>
          simp only [compareWith]
          exact h.plainCompare_eq op (.atom rfl) hw
  | @list items items' hlength hget ih =>
      have hitems : List.Forall₂ (OrderAlike σ τ op enter enter') items items' := by
        rw [List.forall₂_iff_get]
        exact ⟨hlength, fun i hi hk => ⟨hget i hi hk, fun w w' hw => ih i hi hk hw⟩⟩
      rw [compareWith, compareWith]
      rcases rel_cases (h.items? hw) with ⟨ha, hb⟩ | ⟨others, others', ha, hb, hothers⟩
      · rw [ha, hb]
        dsimp only
        rw [h.typeName_eq hw]
      · rw [ha, hb]
        exact compareItems_eq h op hitems hothers
  | map hkeys hvalues =>
      simp only [compareWith]
      exact h.plainCompare_eq op (.map hkeys hvalues) hw
  | host hnames hvalues =>
      simp only [compareWith]
      exact h.plainCompare_eq op (.host hnames hvalues) hw

theorem comparePlace_eq (left : Nat) (p : Place) {w w' : Value} (hw : Value.Alike w w') :
    σ.comparePlace op left p w = τ.comparePlace op left p w' := by
  induction left generalizing p w w' with
  | zero => rfl
  | succ left ih =>
      rw [comparePlace, comparePlace]
      exact compareWith_eq h op (fun p w w' hw => ih p hw) (h.contents p) hw

theorem Alike.compareValues_eq {v v' w w' : Value} (hv : Value.Alike v v')
    (hw : Value.Alike w w') :
    σ.compareValues op v w = τ.compareValues op v' w' := by
  rw [compareValues, compareValues, hv.isNullish_eq, hw.isNullish_eq, h.patience_eq hv hw,
    compareWith_eq h op (fun p w w' hw => comparePlace_eq h op _ p hw) hv hw]

end Order
end Store
end Stencil
