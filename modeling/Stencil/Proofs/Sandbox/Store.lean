import Stencil.Proofs.Sandbox.Alike

/-!
# Alike stores

Whatever is looked up in two alike stores is alike, and whatever is written to both,
if alike itself, leaves them alike.
-/

namespace Stencil

open Value (LabelledAlike)

/-! # Rows and optional values -/

theorem forall₂_getElem? {α β : Type} {R : α → β → Prop} {l : List α} {m : List β}
    (h : List.Forall₂ R l m) (i : Nat) :
    Option.Rel R l[i]? m[i]? := by
  induction h generalizing i with
  | nil => exact .none
  | cons hhead _ ih =>
      cases i with
      | zero => exact .some hhead
      | succ i => exact ih i

theorem forall₂_modify {α β : Type} {R : α → β → Prop} {f : α → α} {g : β → β}
    (hfg : ∀ a b, R a b → R (f a) (g b)) {l : List α} {m : List β} (h : List.Forall₂ R l m)
    (i : Nat) :
    List.Forall₂ R (l.modify i f) (m.modify i g) := by
  induction h generalizing i with
  | nil => cases i <;> exact .nil
  | cons hhead htail ih =>
      cases i with
      | zero => exact .cons (hfg _ _ hhead) htail
      | succ i => exact .cons hhead (ih i)

theorem rel_cases {α β : Type} {R : α → β → Prop} {a : Option α} {b : Option β}
    (h : Option.Rel R a b) :
    (a = none ∧ b = none) ∨ ∃ x y, a = some x ∧ b = some y ∧ R x y := by
  cases h with
  | none => exact .inl ⟨rfl, rfl⟩
  | some hxy => exact .inr ⟨_, _, rfl, rfl, hxy⟩

theorem rel_getD {v w : Option Value} {a b : Value} (h : Option.Rel Value.Alike v w)
    (hab : Value.Alike a b) :
    Value.Alike (v.getD a) (w.getD b) := by
  cases h with
  | some hvalue => exact hvalue
  | none => exact hab

/-! # Entries -/

namespace Entries

variable {entries others : Entries Value}

theorem Alike.get? (h : Entries.Alike entries others) (key : Key) :
    Option.Rel Value.Alike (entries.get? key) (others.get? key) := by
  induction h with
  | nil => exact .none
  | @cons entry other rest more hentry _ ih =>
      rcases hentry with ⟨hkey, hvalue⟩
      unfold Entries.get? at ih ⊢
      rw [List.find?_cons, List.find?_cons, hkey]
      cases other.1.same key with
      | true => exact .some hvalue
      | false => exact ih

theorem Alike.put (h : Entries.Alike entries others) (key : Key) {v w : Value}
    (hvalue : Value.Alike v w) :
    Entries.Alike (entries.put key v) (others.put key w) := by
  induction h with
  | nil => exact .cons ⟨rfl, hvalue⟩ .nil
  | @cons entry other rest more hentry htail ih =>
      rcases entry with ⟨k, a⟩
      rcases other with ⟨k', b⟩
      rcases hentry with ⟨hkey, hab⟩
      simp only at hkey
      subst hkey
      rw [Entries.put, Entries.put]
      cases k.same key with
      | true => exact .cons ⟨rfl, hvalue⟩ htail
      | false => exact .cons ⟨rfl, hab⟩ ih

theorem Alike.merge {more further : Entries Value} (h : Entries.Alike entries others)
    (hmore : Entries.Alike more further) :
    Entries.Alike (entries.merge more) (others.merge further) := by
  induction hmore generalizing entries others with
  | nil => exact h
  | @cons entry other rest _ hentry _ ih =>
      rcases hentry with ⟨hkey, hvalue⟩
      have hput := h.put other.1 hvalue
      rw [Entries.merge, Entries.merge, List.foldl_cons, List.foldl_cons, hkey]
      exact ih hput

theorem Alike.ofPairs (h : Entries.Alike entries others) :
    Entries.Alike (Entries.ofPairs entries) (Entries.ofPairs others) :=
  Alike.merge .nil h

theorem Alike.refl (entries : Entries Value) : Entries.Alike entries entries :=
  List.forall₂_same.mpr fun entry _ => ⟨rfl, Value.Alike.refl entry.2⟩

end Entries

/-! # Stores -/

structure Scope.Alike (s t : Scope) : Prop where
  outer : s.outer = t.outer
  own : Entries.Alike s.own t.own
  receiver : Option.Rel Value.Alike s.receiver t.receiver

inductive Container.Alike : Container → Container → Prop where
  | list {items others : List Value} :
      List.Forall₂ Value.Alike items others → Alike (.list items) (.list others)
  | map {entries others : Entries Value} :
      Entries.Alike entries others → Alike (.map entries) (.map others)

theorem Container.Alike.become {old new other later : Container} (hold : old.Alike other)
    (hnew : new.Alike later) : (old.become new).Alike (other.become later) := by
  cases hold with
  | list hitems => cases hnew with
    | list hlater => exact .list hlater
    | map _ => exact .list hitems
  | map hentries => cases hnew with
    | list _ => exact .map hentries
    | map hlater => exact .map hlater

structure Invocation.Alike (c d : Invocation) : Prop where
  function : c.function = d.function
  args : List.Forall₂ Value.Alike c.args d.args

structure Store.Alike (σ τ : Store) : Prop where
  data : Entries.Alike σ.data τ.data
  helpers : List.Forall₂ LabelledAlike σ.helpers τ.helpers
  scopes : List.Forall₂ Scope.Alike σ.scopes.toList τ.scopes.toList
  shared : List.Forall₂ Container.Alike σ.shared.toList τ.shared.toList
  nextMark : σ.nextMark = τ.nextMark
  calls : List.Forall₂ Invocation.Alike σ.calls τ.calls

namespace Store

section Reading

variable {σ τ : Store} (h : σ.Alike τ)

include h

theorem Alike.scope? (place : Nat) :
    Option.Rel Scope.Alike σ.scopes[place]? τ.scopes[place]? := by
  have hrel := forall₂_getElem? h.scopes place
  rwa [Array.getElem?_toList, Array.getElem?_toList] at hrel

theorem Alike.container? (place : Nat) :
    Option.Rel Container.Alike σ.shared[place]? τ.shared[place]? := by
  have hrel := forall₂_getElem? h.shared place
  rwa [Array.getElem?_toList, Array.getElem?_toList] at hrel

theorem Alike.own (place : Nat) : Entries.Alike (σ.own place) (τ.own place) := by
  unfold Store.own
  rcases rel_cases (h.scope? place) with ⟨hs, ht⟩ | ⟨s, t, hs, ht, hscope⟩
  · rw [hs, ht]
    exact .nil
  · rw [hs, ht]
    exact hscope.own

theorem Alike.path_eq (place : Nat) : σ.path place = τ.path place := by
  unfold Store.path Store.outer
  rcases rel_cases (h.scope? place) with ⟨hs, ht⟩ | ⟨s, t, hs, ht, hscope⟩
  · rw [hs, ht]
  · rw [hs, ht]
    simp only [hscope.outer]

theorem Alike.bound? (place : Nat) (key : Key) :
    Option.Rel Value.Alike (σ.bound? place key) (τ.bound? place key) := by
  have hnearest : ∀ places : List Nat,
      Option.Rel Value.Alike (places.findSome? fun p => (σ.own p).get? key)
        (places.findSome? fun p => (τ.own p).get? key) := by
    intro places
    induction places with
    | nil => exact .none
    | cons p rest ih =>
        rw [List.findSome?_cons, List.findSome?_cons]
        rcases rel_cases ((h.own p).get? key) with ⟨hv, hw⟩ | ⟨v, w, hv, hw, hvalue⟩
        · rw [hv, hw]
          exact ih
        · rw [hv, hw]
          exact .some hvalue
  unfold Store.bound?
  rw [h.path_eq]
  rcases rel_cases (hnearest (τ.path place)) with ⟨hv, hw⟩ | ⟨v, w, hv, hw, hvalue⟩
  · rw [hv, hw]
    exact h.data.get? key
  · rw [hv, hw]
    exact .some hvalue

theorem Alike.helper? (name : String) :
    Option.Rel Value.Alike (σ.helper? name) (τ.helper? name) := by
  have hhelpers := h.helpers
  unfold Store.helper?
  generalize σ.helpers = helpers at hhelpers ⊢
  generalize τ.helpers = others at hhelpers ⊢
  induction hhelpers with
  | nil => exact .none
  | @cons entry other rest more hentry _ ih =>
      rcases hentry with ⟨hname, hvalue⟩
      rw [List.find?_cons, List.find?_cons, hname]
      cases other.1 == name with
      | true => exact .some hvalue
      | false => exact ih

theorem Alike.lookup (place : Nat) (name : String) :
    Value.Alike (σ.lookup place name) (τ.lookup place name) := by
  unfold Store.lookup
  rcases rel_cases (h.bound? place (.str name)) with ⟨hv, hw⟩ | ⟨v, w, hv, hw, hvalue⟩
  · rw [hv, hw]
    exact rel_getD (h.helper? name) (.atom rfl)
  · rw [hv, hw]
    exact hvalue

theorem Alike.lookupKey (place : Nat) (key : Key) :
    Value.Alike (σ.lookupKey place key) (τ.lookupKey place key) := by
  unfold Store.lookupKey
  split
  · split
    · exact h.lookup place _
    · exact rel_getD (h.bound? place _) (.atom rfl)
  · exact rel_getD (h.bound? place _) (.atom rfl)

theorem Alike.bindings (place : Nat) :
    Entries.Alike (σ.bindings place) (τ.bindings place) := by
  have hdata : Entries.Alike (Entries.merge [] σ.data) (Entries.merge [] τ.data) :=
    Entries.Alike.merge .nil h.data
  unfold Store.bindings
  rw [h.path_eq]
  induction τ.path place with
  | nil => exact hdata
  | cons p rest ih => exact ih.merge (h.own p)

theorem Alike.receiver (place : Nat) : Value.Alike (σ.receiver place) (τ.receiver place) := by
  unfold Store.receiver
  rcases rel_cases (h.scope? place) with ⟨hs, ht⟩ | ⟨s, t, hs, ht, hscope⟩
  · rw [hs, ht]
    exact .atom rfl
  · rw [hs, ht]
    exact rel_getD hscope.receiver (.atom rfl)

end Reading

/-! # Contents -/

inductive Shape.Alike : Shape → Shape → Prop where
  | list {items others : List Value} :
      List.Forall₂ Value.Alike items others → Alike (.list items) (.list others)
  | map {entries others : Entries Value} :
      Entries.Alike entries others → Alike (.map entries) (.map others)
  | plain : Alike .plain .plain

section Contents

variable {σ τ : Store} (h : σ.Alike τ)

include h

theorem Alike.shape_shared (place : Nat) :
    Shape.Alike (σ.shape (.shared place)) (τ.shape (.shared place)) := by
  unfold Store.shape
  rcases rel_cases (h.container? place) with ⟨hs, ht⟩ | ⟨c, d, hs, ht, hcontainer⟩
  · simp only [hs, ht]
    exact .plain
  · simp only [hs, ht]
    cases hcontainer with
    | list hitems => exact .list hitems
    | map hentries => exact .map hentries

theorem Alike.shape {v w : Value} (hv : Value.Alike v w) :
    Shape.Alike (σ.shape v) (τ.shape w) := by
  cases v with
  | list items =>
      rcases hv.exists_items with ⟨others, rfl, hitems⟩
      exact .list hitems
  | map entries =>
      rcases hv.exists_entries with ⟨others, rfl, hentries⟩
      exact .map hentries
  | host id type text attributes =>
      cases hv with
      | atom hatom => cases hatom
      | host => exact .plain
  | jsonTools =>
      rw [hv.eq_of_isAtom rfl]
      exact .map (Entries.Alike.refl _)
  | shared place =>
      rw [hv.eq_of_isAtom rfl]
      exact h.shape_shared place
  | scope place =>
      rw [hv.eq_of_isAtom rfl]
      exact .map (h.bindings place)
  | _ =>
      rw [hv.eq_of_isAtom rfl]
      exact .plain

theorem Alike.contents (p : Place) : Value.Alike (σ.contents p) (τ.contents p) := by
  cases p with
  | scope place => exact .ofEntries (h.bindings place)
  | shared place =>
      have hshape := h.shape_shared place
      simp only [Store.contents]
      generalize σ.shape (.shared place) = s at hshape ⊢
      generalize τ.shape (.shared place) = t at hshape ⊢
      cases hshape with
      | list hitems => exact .ofItems hitems
      | map hentries => exact .ofEntries hentries
      | plain => exact .atom rfl

theorem Alike.items? {v w : Value} (hv : Value.Alike v w) :
    Option.Rel (List.Forall₂ Value.Alike) (σ.items? v) (τ.items? w) := by
  have hshape := h.shape hv
  unfold Store.items?
  generalize σ.shape v = s at hshape ⊢
  generalize τ.shape w = t at hshape ⊢
  cases hshape with
  | list hitems => exact .some hitems
  | map hentries => exact .none
  | plain => exact .none

theorem Alike.entries? {v w : Value} (hv : Value.Alike v w) :
    Option.Rel Entries.Alike (σ.entries? v) (τ.entries? w) := by
  have hshape := h.shape hv
  unfold Store.entries?
  generalize σ.shape v = s at hshape ⊢
  generalize τ.shape w = t at hshape ⊢
  cases hshape with
  | list hitems => exact .none
  | map hentries => exact .some hentries
  | plain => exact .none

theorem Alike.typeName_eq {v w : Value} (hv : Value.Alike v w) :
    σ.typeName v = τ.typeName w := by
  cases hv with
  | list => rfl
  | map => rfl
  | host => rfl
  | atom =>
      cases v with
      | shared place =>
          rcases rel_cases (h.container? place) with ⟨hs, ht⟩ | ⟨c, d, hs, ht, hcontainer⟩
          · simp only [Store.typeName, hs, ht]
          · simp only [Store.typeName, hs, ht]
            cases hcontainer <;> rfl
      | _ => rfl

theorem Alike.size_eq : σ.scopes.size = τ.scopes.size ∧ σ.shared.size = τ.shared.size := by
  have hscopes := h.scopes.length_eq
  have hshared := h.shared.length_eq
  rw [Array.length_toList, Array.length_toList] at hscopes hshared
  exact ⟨hscopes, hshared⟩

end Contents

/-! # Writing -/

section Writing

variable {σ τ : Store} (h : σ.Alike τ)

include h

theorem Alike.bind (place : Nat) (key : Key) {v w : Value} (hv : Value.Alike v w) :
    (σ.bind place key v).Alike (τ.bind place key w) where
  data := h.data
  helpers := h.helpers
  scopes := by
    unfold Store.bind
    rw [Array.toList_modify, Array.toList_modify]
    refine forall₂_modify ?_ h.scopes place
    intro s t hscope
    exact ⟨hscope.outer, hscope.own.put key hv, hscope.receiver⟩
  shared := h.shared
  nextMark := h.nextMark
  calls := h.calls

theorem Alike.rewrite {changes others : List (Nat × Container)}
    (hchanges : List.Forall₂ (fun a b => a.1 = b.1 ∧ Container.Alike a.2 b.2) changes others) :
    (σ.rewrite changes).Alike (τ.rewrite others) where
  data := h.data
  helpers := h.helpers
  scopes := h.scopes
  shared := by
    have hshared := h.shared
    unfold Store.rewrite
    dsimp only
    generalize σ.shared = shared at hshared ⊢
    generalize τ.shared = shared' at hshared ⊢
    induction hchanges generalizing shared shared' with
    | nil => exact hshared
    | @cons a b _ _ hab _ ih =>
        rcases a with ⟨place, container⟩
        rcases b with ⟨place', other⟩
        rcases hab with ⟨hplace, hcontainer⟩
        simp only at hplace hcontainer
        subst hplace
        refine ih _ _ ?_
        rw [Array.toList_modify, Array.toList_modify]
        exact forall₂_modify (fun _ _ hold => hold.become hcontainer) hshared place
  nextMark := h.nextMark
  calls := h.calls

theorem Alike.bindAll (place : Nat) {binds others : List (Key × Value)}
    (hbinds : List.Forall₂ LabelledAlike binds others) :
    (binds.foldl (fun σ b => σ.bind place b.1 b.2) σ).Alike
      (others.foldl (fun σ b => σ.bind place b.1 b.2) τ) := by
  induction hbinds generalizing σ τ with
  | nil => exact h
  | cons hentry _ ih =>
      rcases hentry with ⟨hkey, hvalue⟩
      rw [List.foldl_cons, List.foldl_cons, hkey]
      exact ih (h.bind place _ hvalue)

theorem Alike.record {call other : Invocation} (hcall : call.Alike other) :
    (σ.record call).Alike (τ.record other) where
  data := h.data
  helpers := h.helpers
  scopes := h.scopes
  shared := h.shared
  nextMark := h.nextMark
  calls := .cons hcall h.calls

theorem Alike.keep (result : Number) :
    Value.Alike (σ.keep result).1 (τ.keep result).1 ∧
      (σ.keep result).2.Alike (τ.keep result).2 := by
  have hplain : ∀ v : Value, v.isAtom = true →
      Value.Alike v v ∧ σ.Alike τ := by
    intro v hv
    exact ⟨.atom hv, h⟩
  cases result with
  | int n => exact hplain _ rfl
  | float x =>
      cases x with
      | nan mark =>
          simp only [Store.keep, h.nextMark]
          exact ⟨.atom rfl, ⟨h.data, h.helpers, h.scopes, h.shared, rfl, h.calls⟩⟩
      | _ => exact hplain _ rfl

end Writing
end Store
end Stencil
