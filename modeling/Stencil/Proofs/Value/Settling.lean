import Mathlib.Data.List.Count
import Mathlib.Data.List.ProdSigma
import Stencil.Proofs.Value.Parts

/-!
# Comparisons settle

A comparison goes from a pair of a place and a value to other such pairs, all among the parts of
what is compared and of what the store holds. Each place that it may enter more can only decide
pairs that were still open, and once one more decides none, no more ever will. There are no more
pairs than the patience of the comparison counts, so a greater patience changes nothing.
-/

namespace Stencil

/-! # Iterations that settle -/

/-- An outcome that is still open, or that has been decided already. -/
def Refines (x y : Except Failure Bool) : Prop :=
  x = .error .endless ∨ x = y

namespace Refines

theorem refl (x : Except Failure Bool) : Refines x x :=
  .inr rfl

theorem antisymm {x y : Except Failure Bool} (h : Refines x y) (h' : Refines y x) : x = y := by
  rcases h with hx | h
  · rcases h' with hy | h
    · rw [hx, hy]
    · exact h.symm
  · exact h

theorem bind {x y : Except Failure Bool} (h : Refines x y)
    {k l : Bool → Except Failure Bool} (hk : ∀ b, Refines (k b) (l b)) :
    Refines (x >>= k) (y >>= l) := by
  rcases h with rfl | rfl
  · exact .inl rfl
  · cases x with
    | ok b => exact hk b
    | error failure => exact .refl _

end Refines

def isOpen : Except Failure Bool → Bool
  | .error .endless => true
  | _ => false

theorem isOpen_iff (x : Except Failure Bool) : isOpen x = true ↔ x = .error .endless := by
  cases x with
  | ok b => simp [isOpen]
  | error failure => cases failure <;> simp [isOpen]

theorem countP_lt_countP {α : Type} {p q : α → Bool} {l : List α}
    (himp : ∀ a ∈ l, p a = true → q a = true) {a : α} (ha : a ∈ l) (hq : q a = true)
    (hp : p a = false) :
    l.countP p < l.countP q := by
  have hfilter : l.countP p = (l.filter q).countP p := by
    rw [List.countP_filter]
    apply List.countP_congr
    intro b hb
    simp only [Bool.and_eq_true]
    exact ⟨fun h => ⟨h, himp b hb h⟩, fun h => h.1⟩
  rw [hfilter, List.countP_eq_length_filter (p := q), List.countP_lt_length_iff]
  exact ⟨a, List.mem_filter.mpr ⟨ha, hq⟩, hp⟩

section Iteration

variable {α : Type} {stage : Nat → α → Except Failure Bool} {questions : List α}
  (hzero : ∀ a ∈ questions, stage 0 a = .error .endless)
  (hstep : ∀ m n, (∀ a ∈ questions, Refines (stage m a) (stage n a)) →
    ∀ a ∈ questions, Refines (stage (m + 1) a) (stage (n + 1) a))

include hstep

theorem settled_stays {m : Nat} (hm : ∀ a ∈ questions, stage m a = stage (m + 1) a) (k : Nat) :
    ∀ a ∈ questions, stage m a = stage (m + k) a ∧ stage (m + k) a = stage (m + k + 1) a := by
  induction k with
  | zero =>
      intro a ha
      exact ⟨rfl, hm a ha⟩
  | succ k ih =>
      have hforth := hstep (m + k) (m + k + 1) fun a ha => .inr (ih a ha).2
      have hback := hstep (m + k + 1) (m + k) fun a ha => .inr (ih a ha).2.symm
      intro a ha
      exact ⟨(ih a ha).1.trans (ih a ha).2, (hforth a ha).antisymm (hback a ha)⟩

include hzero

theorem stage_refines (n : Nat) : ∀ a ∈ questions, Refines (stage n a) (stage (n + 1) a) := by
  induction n with
  | zero =>
      intro a ha
      exact .inl (hzero a ha)
  | succ n ih => exact hstep n (n + 1) ih

/-- As long as stages decide something, each leaves fewer questions open. -/
theorem settled_or_countP_le (n : Nat) :
    (∀ a ∈ questions, stage n a = stage (n + 1) a) ∨
      questions.countP (fun a => isOpen (stage n a)) + n ≤ questions.length := by
  induction n with
  | zero => exact .inr List.countP_le_length
  | succ n ih =>
      rcases ih with hsettled | hcount
      · refine .inl fun a ha => ?_
        exact (settled_stays hstep hsettled 1 a ha).2
      · by_cases hsettled : ∀ a ∈ questions, stage n a = stage (n + 1) a
        · refine .inl fun a ha => ?_
          exact (settled_stays hstep hsettled 1 a ha).2
        · have hrefines := stage_refines hzero hstep n
          simp only [not_forall] at hsettled
          rcases hsettled with ⟨a, ha, hdecided⟩
          have hopen : stage n a = .error .endless := (hrefines a ha).resolve_right hdecided
          have hless : questions.countP (fun a => isOpen (stage (n + 1) a)) <
              questions.countP (fun a => isOpen (stage n a)) := by
            apply countP_lt_countP _ ha
            · rw [isOpen_iff]
              exact hopen
            · rw [Bool.eq_false_iff, Ne, isOpen_iff]
              intro hstill
              exact hdecided (hopen.trans hstill.symm)
            · intro b hb hb'
              rw [isOpen_iff] at hb' ⊢
              rcases hrefines b hb with h | h
              · exact h
              · rw [h, hb']
          exact .inr (by omega)

variable (stage) in
theorem stage_eq {m n : Nat} (hm : questions.length ≤ m) (hn : questions.length ≤ n) :
    ∀ a ∈ questions, stage m a = stage n a := by
  have hsettled : ∀ a ∈ questions,
      stage questions.length a = stage (questions.length + 1) a := by
    rcases settled_or_countP_le hzero hstep questions.length with h | hcount
    · exact h
    · have hnone : questions.countP (fun a => isOpen (stage questions.length a)) = 0 := by omega
      rw [List.countP_eq_zero] at hnone
      intro a ha
      rcases stage_refines hzero hstep questions.length a ha with h | h
      · exact absurd ((isOpen_iff _).mpr h) (hnone a ha)
      · exact h
  intro a ha
  have hstays := fun k => (settled_stays hstep hsettled k a ha).1
  have hm' := hstays (m - questions.length)
  have hn' := hstays (n - questions.length)
  rw [Nat.add_sub_cancel' hm] at hm'
  rw [Nat.add_sub_cancel' hn] at hn'
  rw [← hm', ← hn']

end Iteration

namespace Store

/-! # Steps of a comparison -/

/--
Two ways to enter places, the second of which decides more, for places and values among given
ones in which nothing else stands.
-/
structure Approaches (σ : Store) (left right : List Value)
    (enter enter' : Place → Value → Except Failure Bool) : Prop where
  closes_left : σ.Closes left
  closes_right : σ.Closes right
  refines : ∀ p w, p.value ∈ left → w ∈ right → Refines (enter p w) (enter' p w)

theorem items?_inside {σ : Store} {v : Value} {items : List Value} (h : σ.items? v = some items) :
    σ.inside v = items := by
  unfold items? at h
  unfold inside
  cases hshape : σ.shape v <;> simp_all

theorem entries?_inside {σ : Store} {v : Value} {entries : Entries Value}
    (h : σ.entries? v = some entries) : σ.inside v = entries.map (·.2) := by
  unfold entries? at h
  unfold inside
  cases hshape : σ.shape v <;> simp_all

theorem mem_values_of_get? {entries : Entries Value} {key : Key} {v : Value}
    (h : entries.get? key = some v) : v ∈ entries.map (·.2) := by
  rcases Option.map_eq_some_iff.mp h with ⟨entry, hentry, rfl⟩
  exact List.mem_map_of_mem (List.mem_of_find?_eq_some hentry)

/-- A comparison that gets more decided when more is decided of the places it enters. -/
def IsMonotone (σ : Store)
    (walk : (Place → Value → Except Failure Bool) → Value → Value → Except Failure Bool) : Prop :=
  ∀ left right enter enter', σ.Approaches left right enter enter' →
    ∀ v w, (∀ p : Place, v = p.value → v ∈ left) → σ.inside v ⊆ left → w ∈ right →
      Refines (walk enter v w) (walk enter' v w)

section Equality

variable {σ : Store} {left right : List Value}
  {enter enter' : Place → Value → Except Failure Bool}

mutual

theorem refines_equalWith (h : σ.Approaches left right enter enter') :
    (v w : Value) → (∀ p : Place, v = p.value → v ∈ left) → σ.inside v ⊆ left → w ∈ right →
      Refines (σ.equalWith enter v w) (σ.equalWith enter' v w)
  | .list items, w, _, hv, hw => by
      rw [equalWith, equalWith]
      cases hothers : σ.items? w with
      | none => exact .refl _
      | some others =>
          dsimp only
          split
          · have hright := h.closes_right w hw
            rw [items?_inside hothers] at hright
            exact refines_equalItems h items others hv hright
          · exact .refl _
  | .map entries, w, _, hv, hw => by
      rw [equalWith, equalWith]
      cases hothers : σ.entries? w with
      | none => exact .refl _
      | some others =>
          dsimp only
          split
          · have hright := h.closes_right w hw
            rw [entries?_inside hothers] at hright
            exact refines_equalEntries h entries others hv hright
          · exact .refl _
  | .shared place, w, hp, _, hw => by
      rw [equalWith, equalWith]
      exact h.refines (.shared place) w (hp (.shared place) rfl) hw
  | .scope place, w, hp, _, hw => by
      rw [equalWith, equalWith]
      exact h.refines (.scope place) w (hp (.scope place) rfl) hw
  | .jsonTools, w, _, _, _ => by
      rw [equalWith, equalWith]
      exact .refl _
  | .undefined, _, _, _, _ => .refl _
  | .null, _, _, _, _ => .refl _
  | .bool _, _, _, _, _ => .refl _
  | .int _, _, _, _, _ => .refl _
  | .float _, _, _, _, _ => .refl _
  | .str _, _, _, _, _ => .refl _
  | .callable _, _, _, _, _ => .refl _
  | .host _ _ _ _, _, _, _, _ => .refl _

theorem refines_equalItems (h : σ.Approaches left right enter enter') :
    (items others : List Value) → items ⊆ left → (∀ w ∈ others, w ∈ right) →
      Refines (σ.equalItems enter items others) (σ.equalItems enter' items others)
  | [], _, _, _ => by
      rw [equalItems, equalItems]
      · exact .refl _
      all_goals simp
  | _ :: _, [], _, _ => by
      rw [equalItems, equalItems]
      · exact .refl _
      all_goals simp
  | v :: rest, w :: others, hv, hw => by
      have hrest := refines_equalItems h rest others (List.subset_of_cons_subset hv)
        fun u hu => hw u (List.mem_cons_of_mem w hu)
      rw [equalItems, equalItems]
      split
      · exact hrest
      · have hmem : v ∈ left := hv List.mem_cons_self
        have hhead := refines_equalWith h v w (fun _ _ => hmem) (h.closes_left v hmem)
          (hw w List.mem_cons_self)
        refine hhead.bind fun b => ?_
        split
        · exact hrest
        · exact .refl _

theorem refines_equalEntries (h : σ.Approaches left right enter enter') :
    (entries : List (Key × Value)) → (others : Entries Value) →
      entries.map (·.2) ⊆ left → (∀ w ∈ others.map (·.2), w ∈ right) →
      Refines (σ.equalEntries enter entries others) (σ.equalEntries enter' entries others)
  | [], _, _, _ => by
      rw [equalEntries, equalEntries]
      exact .refl _
  | (key, v) :: rest, others, hv, hw => by
      have hrest := refines_equalEntries h rest others (List.subset_of_cons_subset hv) hw
      rw [equalEntries, equalEntries]
      cases hfound : others.get? key with
      | none => exact .refl _
      | some w =>
          dsimp only
          split
          · exact hrest
          · have hmem : v ∈ left := hv List.mem_cons_self
            have hhead := refines_equalWith h v w (fun _ _ => hmem) (h.closes_left v hmem)
              (hw w (mem_values_of_get? hfound))
            refine hhead.bind fun b => ?_
            split
            · exact hrest
            · exact .refl _

end

end Equality

section Order

variable {σ : Store} {left right : List Value} (op : ComparisonOp)
  {enter enter' : Place → Value → Except Failure Bool}

mutual

theorem refines_compareWith (h : σ.Approaches left right enter enter') :
    (v w : Value) → (∀ p : Place, v = p.value → v ∈ left) → σ.inside v ⊆ left → w ∈ right →
      Refines (σ.compareWith op enter v w) (σ.compareWith op enter' v w)
  | .list items, w, _, hv, hw => by
      rw [compareWith, compareWith]
      cases hothers : σ.items? w with
      | none => exact .refl _
      | some others =>
          have hright := h.closes_right w hw
          rw [items?_inside hothers] at hright
          exact refines_compareItems h items others hv hright
  | .shared place, w, hp, _, hw => by
      rw [compareWith, compareWith]
      exact h.refines (.shared place) w (hp (.shared place) rfl) hw
  | .map _, _, _, _, _ => .refl _
  | .scope _, _, _, _, _ => .refl _
  | .jsonTools, _, _, _, _ => .refl _
  | .undefined, _, _, _, _ => .refl _
  | .null, _, _, _, _ => .refl _
  | .bool _, _, _, _, _ => .refl _
  | .int _, _, _, _, _ => .refl _
  | .float _, _, _, _, _ => .refl _
  | .str _, _, _, _, _ => .refl _
  | .callable _, _, _, _, _ => .refl _
  | .host _ _ _ _, _, _, _, _ => .refl _

theorem refines_compareItems (h : σ.Approaches left right enter enter') :
    (items others : List Value) → items ⊆ left → (∀ w ∈ others, w ∈ right) →
      Refines (σ.compareItems op enter items others) (σ.compareItems op enter' items others)
  | [], _, _, _ => .refl _
  | _ :: _, [], _, _ => .refl _
  | v :: rest, w :: others, hv, hw => by
      have hrest := refines_compareItems h rest others (List.subset_of_cons_subset hv)
        fun u hu => hw u (List.mem_cons_of_mem w hu)
      rw [compareItems, compareItems]
      split
      · exact hrest
      · have hmem : v ∈ left := hv List.mem_cons_self
        have hhead := refines_compareWith h v w (fun _ _ => hmem) (h.closes_left v hmem)
          (hw w List.mem_cons_self)
        refine (Refines.refl _).bind fun b => ?_
        split
        · exact hrest
        · exact hhead

end

end Order

theorem isMonotone_equalWith (σ : Store) : σ.IsMonotone σ.equalWith :=
  fun _ _ _ _ h v w => refines_equalWith h v w

theorem isMonotone_compareWith (σ : Store) (op : ComparisonOp) :
    σ.IsMonotone (σ.compareWith op) :=
  fun _ _ _ _ h v w => refines_compareWith op h v w

/-! # Patience -/

def questions (σ : Store) (v w : Value) : List (Place × Value) :=
  (σ.reach v).filterMap Value.place? ×ˢ σ.reach w

theorem mem_questions {σ : Store} {v w : Value} {question : Place × Value} :
    question ∈ σ.questions v w ↔ question.1.value ∈ σ.reach v ∧ question.2 ∈ σ.reach w := by
  rcases question with ⟨p, u⟩
  have hplace : ∀ v : Value, v.place? = some p ↔ v = p.value := by
    intro v
    cases v <;> cases p <;> simp [Value.place?, Place.value]
  rw [questions, List.mem_product, List.mem_filterMap]
  simp only [hplace, exists_eq_right]

theorem length_questions_le (σ : Store) (v w : Value) :
    (σ.questions v w).length ≤ σ.patience v w := by
  rw [questions, List.length_product, patience]
  apply Nat.mul_le_mul
  · exact Nat.le_trans (List.length_filterMap_le _ _) (σ.length_reach_le v)
  · exact σ.length_reach_le w

theorem inside_contents (σ : Store) (p : Place) : σ.inside (σ.contents p) = σ.inside p.value := by
  cases p with
  | scope place => rfl
  | shared place =>
      dsimp only [inside, contents, Place.value]
      cases σ.shape (.shared place) <;> rfl

theorem contents_ne_value (σ : Store) (p q : Place) : σ.contents p ≠ q.value := by
  cases p with
  | scope place => cases q <;> simp [contents, Place.value]
  | shared place =>
      dsimp only [contents]
      cases σ.shape (.shared place) <;> cases q <;> simp [Place.value]

section Patience

variable {σ : Store}
  {walk : (Place → Value → Except Failure Bool) → Value → Value → Except Failure Bool}
  (hwalk : σ.IsMonotone walk) {stage : Nat → Place → Value → Except Failure Bool}
  (hzero : ∀ p w, stage 0 p w = .error .endless)
  (hsucc : ∀ n p w, stage (n + 1) p w = walk (stage n) (σ.contents p) w)

theorem approaches_of_refines {v w : Value}
    {enter enter' : Place → Value → Except Failure Bool}
    (h : ∀ question ∈ σ.questions v w,
      Refines (enter question.1 question.2) (enter' question.1 question.2)) :
    σ.Approaches (σ.reach v) (σ.reach w) enter enter' where
  closes_left := σ.closes_reach v
  closes_right := σ.closes_reach w
  refines p u hp hu := h (p, u) (mem_questions.mpr ⟨hp, hu⟩)

include hwalk hzero hsucc

theorem stage_settled {v w : Value} {m n : Nat} (hm : σ.patience v w ≤ m)
    (hn : σ.patience v w ≤ n) :
    ∀ question ∈ σ.questions v w,
      stage m question.1 question.2 = stage n question.1 question.2 := by
  have hlength := σ.length_questions_le v w
  refine stage_eq (fun n question => stage n question.1 question.2) (fun _ _ => hzero _ _) ?_
    (Nat.le_trans hlength hm) (Nat.le_trans hlength hn)
  intro m n h question hquestion
  rw [mem_questions] at hquestion
  rw [hsucc, hsucc]
  apply hwalk _ _ _ _ (approaches_of_refines h)
  · intro p hp
    exact absurd hp (σ.contents_ne_value question.1 p)
  · rw [inside_contents]
    exact σ.closes_reach v _ hquestion.1
  · exact hquestion.2

variable (stage) in
theorem walk_eq_of_le (v w : Value) {n : Nat} (hn : σ.patience v w ≤ n) :
    walk (stage (σ.patience v w)) v w = walk (stage n) v w := by
  have hstages := stage_settled hwalk hzero hsucc (Nat.le_refl (σ.patience v w)) hn
  have hself := σ.mem_reach_self v
  have hrefines : ∀ enter enter', (∀ question ∈ σ.questions v w,
      enter question.1 question.2 = enter' question.1 question.2) →
      Refines (walk enter v w) (walk enter' v w) := by
    intro enter enter' h
    exact hwalk _ _ _ _ (approaches_of_refines fun question hq => .inr (h question hq)) v w
      (fun _ _ => hself) (σ.closes_reach v v hself) (σ.mem_reach_self w)
  apply Refines.antisymm
  · exact hrefines _ _ hstages
  · exact hrefines _ _ fun question hq => (hstages question hq).symm

end Patience

theorem equal_eq_of_le {σ : Store} {v w : Value} {n : Nat} (hn : σ.patience v w ≤ n) :
    σ.equal v w = σ.equalWith (σ.equalPlace n) v w :=
  walk_eq_of_le σ.isMonotone_equalWith σ.equalPlace (fun _ _ => rfl) (fun _ _ _ => rfl) v w hn

theorem compareWith_eq_of_le {σ : Store} (op : ComparisonOp) {v w : Value} {n : Nat}
    (hn : σ.patience v w ≤ n) :
    σ.compareWith op (σ.comparePlace op (σ.patience v w)) v w =
      σ.compareWith op (σ.comparePlace op n) v w :=
  walk_eq_of_le (σ.isMonotone_compareWith op) (σ.comparePlace op) (fun _ _ => rfl)
    (fun _ _ _ => rfl) v w hn

end Store
end Stencil
