import Stencil.Proofs.Value.Keys
import Stencil.Value.Store

/-!
# What is seen through scopes

A scope sees what it binds itself and, behind that, what the scopes around it see. So all its
bindings taken together say what each key means there, and a value that is bound in a scope is put
among them.
-/

namespace Stencil.Store

variable (σ : Store) {place inner : Nat} {between : List Nat}

/-! # Scopes inside others -/

theorem bound?_of_path (h : σ.path inner = between ++ σ.path place) (key : Key) :
    σ.bound? inner key =
      (between.findSome? fun p => (σ.own p).get? key).or (σ.bound? place key) := by
  unfold bound?
  rw [h, List.findSome?_append]
  cases between.findSome? fun p => (σ.own p).get? key <;> rfl

theorem bindings_of_path (h : σ.path inner = between ++ σ.path place) :
    σ.bindings inner =
      between.foldr (fun p all => Entries.merge all (σ.own p)) (σ.bindings place) := by
  unfold bindings
  rw [h, List.foldr_append]

/-! # What opening a scope changes -/

section Child

variable (bindings : Entries Value) (receiver : Option Value) (p : Nat)

theorem own_child :
    (σ.child place bindings receiver).2.own p =
      if p = σ.scopes.size then Entries.ofPairs bindings else σ.own p := by
  unfold own child
  rw [Array.getElem?_push]
  by_cases h : p = σ.scopes.size
  · rw [if_pos h, if_pos h]
  · rw [if_neg h, if_neg h]

theorem outer_child :
    (σ.child place bindings receiver).2.outer p =
      if p = σ.scopes.size then σ.path place else σ.outer p := by
  unfold outer child
  rw [Array.getElem?_push]
  by_cases h : p = σ.scopes.size
  · rw [if_pos h, if_pos h]
  · rw [if_neg h, if_neg h]

end Child

/-! # Keys that are bound once -/

/-- Whether no two keys of the data or of one scope find the same entry. -/
structure IsKeyed : Prop where
  data : σ.data.Distinct
  own : ∀ place, (σ.own place).Distinct

theorem IsKeyed.get?_bindings {σ : Store} (h : σ.IsKeyed) (place : Nat) (key : Key) :
    (σ.bindings place).get? key = σ.bound? place key := by
  have hscopes : ∀ path : List Nat,
      (path.foldr (fun p all => Entries.merge all (σ.own p)) (Entries.merge [] σ.data)).get? key =
        (path.findSome? fun p => (σ.own p).get? key).or (σ.data.get? key) := by
    intro path
    induction path with
    | nil => exact (Entries.get?_merge h.data [] key).trans (Option.or_none)
    | cons p rest ih =>
        rw [List.foldr_cons, Entries.get?_merge (h.own p), ih, List.findSome?_cons]
        cases (σ.own p).get? key <;> rfl
  rw [bindings, hscopes, bound?]
  cases (σ.path place).findSome? fun p => (σ.own p).get? key <;> rfl

theorem IsKeyed.child {σ : Store} (h : σ.IsKeyed) (place : Nat) (bindings : Entries Value)
    (receiver : Option Value) : (σ.child place bindings receiver).2.IsKeyed where
  data := h.data
  own p := by
    rw [own_child]
    split
    · exact Entries.distinct_ofPairs bindings
    · exact h.own p

theorem distinct_own_bind {p q : Nat} (h : (σ.own p).Distinct) (key : Key) (value : Value) :
    ((σ.bind q key value).own p).Distinct := by
  unfold Store.own at h
  unfold Store.own Store.bind
  rw [Array.getElem?_modify]
  by_cases hsame : q = p
  · rw [if_pos hsame]
    cases hscope : σ.scopes[p]? with
    | none => exact List.Pairwise.nil
    | some scope =>
        rw [hscope] at h
        exact h.put key value
  · rw [if_neg hsame]
    exact h

theorem IsKeyed.bind {σ : Store} (h : σ.IsKeyed) (place : Nat) (key : Key) (value : Value) :
    (σ.bind place key value).IsKeyed where
  data := h.data
  own p := σ.distinct_own_bind (h.own p) key value

theorem distinct_bindings (place : Nat) : (σ.bindings place).Distinct := by
  rw [bindings]
  induction σ.path place with
  | nil => exact Entries.distinct_ofPairs σ.data
  | cons p rest ih => exact ih.merge (σ.own p)

/-! # What a binding changes -/

section Bind

variable {p q : Nat} (key : Key) (value : Value)

theorem outer_bind : (σ.bind q key value).outer p = σ.outer p := by
  unfold outer bind
  rw [Array.getElem?_modify]
  by_cases h : q = p
  · rw [if_pos h]
    cases σ.scopes[p]? <;> rfl
  · rw [if_neg h]

theorem path_bind : (σ.bind q key value).path p = σ.path p := by
  rw [path, path, outer_bind]

theorem receiver_bind : (σ.bind q key value).receiver p = σ.receiver p := by
  unfold receiver bind
  rw [Array.getElem?_modify]
  by_cases h : q = p
  · rw [if_pos h]
    cases σ.scopes[p]? <;> rfl
  · rw [if_neg h]

theorem own_bind_of_ne (h : q ≠ p) : (σ.bind q key value).own p = σ.own p := by
  unfold own bind
  rw [Array.getElem?_modify, if_neg h]

theorem own_bind_self (h : q < σ.scopes.size) :
    (σ.bind q key value).own q = (σ.own q).put key value := by
  unfold own bind
  rw [Array.getElem?_modify, if_pos rfl, Array.getElem?_eq_getElem h]
  rfl

theorem findSome?_own_bind {path : List Nat} (h : q ∉ path) (other : Key) :
    (path.findSome? fun p => ((σ.bind q key value).own p).get? other) =
      path.findSome? fun p => (σ.own p).get? other := by
  induction path with
  | nil => rfl
  | cons p rest ih =>
      rw [List.mem_cons, not_or] at h
      rw [List.findSome?_cons, List.findSome?_cons, own_bind_of_ne σ key value h.1, ih h.2]

theorem foldr_own_bind {path : List Nat} (h : q ∉ path) (first : Entries Value) :
    path.foldr (fun p all => Entries.merge all ((σ.bind q key value).own p)) first =
      path.foldr (fun p all => Entries.merge all (σ.own p)) first := by
  induction path with
  | nil => rfl
  | cons p rest ih =>
      rw [List.mem_cons, not_or] at h
      rw [List.foldr_cons, List.foldr_cons, own_bind_of_ne σ key value h.1, ih h.2]

theorem bound?_bind_of_not_mem (h : q ∉ σ.path p) (other : Key) :
    (σ.bind q key value).bound? p other = σ.bound? p other := by
  rw [bound?, bound?, path_bind, findSome?_own_bind σ key value h]
  rfl

theorem bindings_bind_of_not_mem (h : q ∉ σ.path p) :
    (σ.bind q key value).bindings p = σ.bindings p := by
  rw [bindings, bindings, path_bind, foldr_own_bind σ key value h]
  rfl

variable (hthere : q < σ.scopes.size) (houter : q ∉ σ.outer q)

include hthere houter

theorem bound?_bind_self (other : Key) :
    (σ.bind q key value).bound? q other =
      if key.same other then some value else σ.bound? q other := by
  rw [bound?, bound?, path_bind, path, List.findSome?_cons, List.findSome?_cons,
    own_bind_self σ key value hthere, Entries.get?_put, findSome?_own_bind σ key value houter]
  cases key.same other <;> rfl

theorem bindings_bind_self (hown : (σ.own q).Distinct) :
    (σ.bind q key value).bindings q = (σ.bindings q).put key value := by
  rw [bindings, bindings, path_bind, path, List.foldr_cons, List.foldr_cons,
    own_bind_self σ key value hthere, foldr_own_bind σ key value houter, Entries.merge_put hown]
  rfl

end Bind

end Stencil.Store
