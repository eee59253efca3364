import Stencil.Proofs.Renaming.Values
import Stencil.Proofs.Sandbox.Noninterference

/-!
# Stores that mirror each other

A store mirrors another under a renaming if whatever can be looked up in the scopes of the first
can be looked up, renamed, in the scopes that answer to them. The second store may hold more.
-/

namespace Stencil

variable {ρ : Renaming} {e f : Extent}

theorem rel_getD_renamed {v w : Option Value} {a b : Value}
    (h : Option.Rel (Value.Renamed ρ e) v w) (hab : Value.Renamed ρ e a b) :
    Value.Renamed ρ e (v.getD a) (w.getD b) := by
  cases h with
  | some hvalue => exact hvalue
  | none => exact hab

/-! # Entries -/

namespace Entries.Renamed

variable {entries others : Entries Value}

theorem mono (h : e.Within f) (hentries : Entries.Renamed ρ e entries others) :
    Entries.Renamed ρ f entries others :=
  hentries.imp fun _ _ hentry => ⟨⟨hentry.1.1.mono h, hentry.1.2⟩, hentry.2.mono h⟩

theorem get? (h : Entries.Renamed ρ e entries others) {k l : Key} (hkey : l = k.rename ρ) :
    Option.Rel (Value.Renamed ρ e) (entries.get? k) (others.get? l) := by
  subst hkey
  induction h with
  | nil => exact .none
  | @cons entry other rest more hentry _ ih =>
      rcases hentry with ⟨⟨_, hkey⟩, hvalue⟩
      unfold Entries.get? at ih ⊢
      rw [List.find?_cons, List.find?_cons, hkey, Key.same_rename]
      cases entry.1.same k with
      | true => exact .some hvalue
      | false => exact ih

theorem put (h : Entries.Renamed ρ e entries others) {k l : Key} (hkey : k.Renamed ρ e l)
    {v w : Value} (hvalue : Value.Renamed ρ e v w) :
    Entries.Renamed ρ e (entries.put k v) (others.put l w) := by
  induction h with
  | nil => exact .cons ⟨hkey, hvalue⟩ .nil
  | @cons entry other rest more hentry htail ih =>
      rcases entry with ⟨k', a⟩
      rcases other with ⟨l', b⟩
      rcases hentry with ⟨hentry, hab⟩
      have hsame : l'.same l = k'.same k := by
        rw [show l' = k'.rename ρ from hentry.2, hkey.2, Key.same_rename]
      rw [Entries.put, Entries.put, hsame]
      cases k'.same k with
      | true => exact .cons ⟨hentry, hvalue⟩ htail
      | false => exact .cons ⟨hentry, hab⟩ ih

theorem merge {more further : Entries Value} (h : Entries.Renamed ρ e entries others)
    (hmore : Entries.Renamed ρ e more further) :
    Entries.Renamed ρ e (entries.merge more) (others.merge further) := by
  induction hmore generalizing entries others with
  | nil => exact h
  | @cons entry other rest _ hentry _ ih =>
      have hput := h.put hentry.1 hentry.2
      rw [Entries.merge, Entries.merge, List.foldl_cons, List.foldl_cons]
      exact ih hput

theorem ofPairs (h : Entries.Renamed ρ e entries others) :
    Entries.Renamed ρ e (Entries.ofPairs entries) (Entries.ofPairs others) :=
  merge .nil h

end Entries.Renamed

theorem Key.renamed_str (ρ : Renaming) (e : Extent) (s : Text) :
    (Key.str s).Renamed ρ e (.str s) :=
  ⟨trivial, rfl⟩

/-! # Stores -/

inductive Container.Renamed (ρ : Renaming) (e : Extent) : Container → Container → Prop where
  | list {items others : List Value} :
      List.Forall₂ (Value.Renamed ρ e) items others → Renamed ρ e (.list items) (.list others)
  | map {entries others : Entries Value} :
      Entries.Renamed ρ e entries others → Renamed ρ e (.map entries) (.map others)

theorem Container.Renamed.mono (h : e.Within f) {c d : Container} (hc : c.Renamed ρ e d) :
    c.Renamed ρ f d := by
  cases hc with
  | list hitems => exact .list (hitems.imp fun _ _ hv => hv.mono h)
  | map hentries => exact .map (hentries.mono h)

namespace Store

def extent (σ : Store) : Extent where
  scopes := σ.scopes.size
  shared := σ.shared.size
  marks := σ.nextMark

theorem extent_bind (σ : Store) (place : Nat) (key : Key) (value : Value) :
    (σ.bind place key value).extent = σ.extent := by
  simp [extent, bind]

/-- What can be looked up in one store can be looked up, renamed, in the other. -/
structure Mirrors (ρ : Renaming) (σ τ : Store) : Prop where
  bound? : ∀ place < σ.scopes.size, ∀ k l : Key, l = k.rename ρ →
    Option.Rel (Value.Renamed ρ σ.extent) (σ.bound? place k) (τ.bound? (ρ.place place) l)
  bindings : ∀ place < σ.scopes.size,
    Entries.Renamed ρ σ.extent (σ.bindings place) (τ.bindings (ρ.place place))
  receiver : ∀ place < σ.scopes.size,
    Value.Renamed ρ σ.extent (σ.receiver place) (τ.receiver (ρ.place place))
  helper? : ∀ name, Option.Rel (Value.Renamed ρ σ.extent) (σ.helper? name) (τ.helper? name)
  shared : List.Forall₂ (Container.Renamed ρ σ.extent) σ.shared.toList τ.shared.toList
  size_le : σ.scopes.size ≤ τ.scopes.size
  mark_eq : ∀ i, ρ.mark (σ.nextMark + i) = τ.nextMark + i

section Reading

variable {σ τ : Store} (h : Mirrors ρ σ τ)

include h

theorem Mirrors.container? (place : Nat) :
    Option.Rel (Container.Renamed ρ σ.extent) σ.shared[place]? τ.shared[place]? := by
  have hrel := forall₂_getElem? h.shared place
  rwa [Array.getElem?_toList, Array.getElem?_toList] at hrel

theorem Mirrors.shared_size_eq : τ.shared.size = σ.shared.size := by
  have hlength := h.shared.length_eq
  rw [Array.length_toList, Array.length_toList] at hlength
  exact hlength.symm

theorem Mirrors.placeCount_le : σ.placeCount ≤ τ.placeCount := by
  rw [placeCount, placeCount, h.shared_size_eq]
  exact Nat.add_le_add_left h.size_le _

section Scope

variable {place : Nat} (hplace : place < σ.scopes.size)

include hplace

theorem Mirrors.lookup (name : String) :
    Value.Renamed ρ σ.extent (σ.lookup place name) (τ.lookup (ρ.place place) name) := by
  unfold Store.lookup
  rcases rel_cases (h.bound? place hplace (.str name) (.str name) rfl) with
    ⟨hv, hw⟩ | ⟨v, w, hv, hw, hvalue⟩
  · rw [hv, hw]
    exact rel_getD_renamed (h.helper? name) (.constant rfl)
  · rw [hv, hw]
    exact hvalue

theorem Mirrors.lookupKey_str (s : Text) :
    Value.Renamed ρ σ.extent (σ.lookupKey place (.str s))
      (τ.lookupKey (ρ.place place) (.str s)) := by
  unfold Store.lookupKey
  dsimp only
  split
  · exact h.lookup hplace _
  · exact rel_getD_renamed (h.bound? place hplace _ _ rfl) (.constant rfl)

end Scope

end Reading

/-! # Contents -/

inductive Shape.Renamed (ρ : Renaming) (e : Extent) : Shape → Shape → Prop where
  | list {items others : List Value} :
      List.Forall₂ (Value.Renamed ρ e) items others → Renamed ρ e (.list items) (.list others)
  | map {entries others : Entries Value} :
      Entries.Renamed ρ e entries others → Renamed ρ e (.map entries) (.map others)
  | plain : Renamed ρ e .plain .plain

section Contents

variable {σ τ : Store} (h : Mirrors ρ σ τ)

include h

theorem Mirrors.shape_shared (place : Nat) :
    Shape.Renamed ρ σ.extent (σ.shape (.shared place)) (τ.shape (.shared place)) := by
  unfold Store.shape
  rcases rel_cases (h.container? place) with ⟨hs, ht⟩ | ⟨c, d, hs, ht, hcontainer⟩
  · simp only [hs, ht]
    exact .plain
  · simp only [hs, ht]
    cases hcontainer with
    | list hitems => exact .list hitems
    | map hentries => exact .map hentries

theorem Mirrors.shape {v w : Value} (hv : Value.Renamed ρ σ.extent v w) :
    Shape.Renamed ρ σ.extent (σ.shape v) (τ.shape w) := by
  cases v with
  | list items =>
      rcases hv.exists_items with ⟨others, rfl, hitems⟩
      exact .list hitems
  | map entries =>
      rcases hv.exists_entries with ⟨others, rfl, hentries⟩
      exact .map hentries
  | jsonTools =>
      rw [hv.eq_of_isConstant rfl]
      exact .map (.cons ⟨⟨trivial, rfl⟩, .constant rfl⟩
        (.cons ⟨⟨trivial, rfl⟩, .constant rfl⟩ .nil))
  | shared place =>
      cases hv with
      | constant hv => cases hv
      | shared => exact h.shape_shared place
  | scope place =>
      cases hv with
      | constant hv => cases hv
      | scope hplace => exact .map (h.bindings place hplace)
  | _ => cases hv <;> exact .plain

theorem Mirrors.contents {p : Place} (hp : p.Within σ.extent) :
    Value.Renamed ρ σ.extent (σ.contents p) (τ.contents (p.rename ρ)) := by
  cases p with
  | scope place => exact .ofEntries (h.bindings place hp)
  | shared place =>
      have hshape := h.shape_shared place
      simp only [Store.contents, Place.rename]
      generalize σ.shape (.shared place) = s at hshape ⊢
      generalize τ.shape (.shared place) = t at hshape ⊢
      cases hshape with
      | list hitems => exact .ofItems hitems
      | map hentries => exact .ofEntries hentries
      | plain => exact .constant rfl

theorem Mirrors.items? {v w : Value} (hv : Value.Renamed ρ σ.extent v w) :
    Option.Rel (List.Forall₂ (Value.Renamed ρ σ.extent)) (σ.items? v) (τ.items? w) := by
  have hshape := h.shape hv
  unfold Store.items?
  generalize σ.shape v = s at hshape ⊢
  generalize τ.shape w = t at hshape ⊢
  cases hshape with
  | list hitems => exact .some hitems
  | map hentries => exact .none
  | plain => exact .none

theorem Mirrors.entries? {v w : Value} (hv : Value.Renamed ρ σ.extent v w) :
    Option.Rel (Entries.Renamed ρ σ.extent) (σ.entries? v) (τ.entries? w) := by
  have hshape := h.shape hv
  unfold Store.entries?
  generalize σ.shape v = s at hshape ⊢
  generalize τ.shape w = t at hshape ⊢
  cases hshape with
  | list hitems => exact .none
  | map hentries => exact .some hentries
  | plain => exact .none

theorem Mirrors.typeName_eq {v w : Value} (hv : Value.Renamed ρ σ.extent v w) :
    τ.typeName w = σ.typeName v := by
  cases hv with
  | shared =>
      rename_i place _
      rcases rel_cases (h.container? place) with ⟨hs, ht⟩ | ⟨c, d, hs, ht, hcontainer⟩
      · simp only [Store.typeName, hs, ht]
      · simp only [Store.typeName, hs, ht]
        cases hcontainer <;> rfl
  | @constant v hv => cases v <;> first | rfl | cases hv
  | _ => rfl

end Contents
end Store
end Stencil
