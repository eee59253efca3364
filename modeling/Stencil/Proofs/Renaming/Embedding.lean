import Stencil.Proofs.Renaming.Evaluation

/-!
# Stores that hold others

A store holds another if every scope of the other has one that answers to it, with the same
contents renamed, and if the scopes and marks that come next answer to each other as well. Then
whatever is opened, bound or given out on both sides answers to each other again, so that a store
that holds another keeps mirroring it.

A store is closed if it holds itself when nothing is renamed: what occurs in it is there. One that
has come out of a closed store, whose scopes have been left alone, holds it. There the scopes
and marks that come next are renamed, because others have been opened and given out since.
-/

namespace Stencil

variable {ρ : Renaming} {e : Extent}

/-! # Agreement of renamings -/

namespace Renaming

def identity : Renaming where
  place := id
  mark := id
  place_injective _ _ h := h
  mark_injective _ _ h := h
  mark_zero := rfl

structure Agrees (e : Extent) (ρ other : Renaming) : Prop where
  place : ∀ place < e.scopes, other.place place = ρ.place place
  mark : ∀ mark < e.marks, other.mark mark = ρ.mark mark

section Agreement

variable {other : Renaming} (h : ρ.Agrees e other)

include h

theorem Agrees.binary {x : Binary64} (hx : x.Marked e) : x.rename other = x.rename ρ := by
  cases x with
  | nan mark =>
      rcases hx with rfl | hmark
      · rw [Binary64.rename, Binary64.rename, other.mark_zero, ρ.mark_zero]
      · rw [Binary64.rename, Binary64.rename, h.mark mark hmark]
  | infinity negative => rfl
  | finite negative rank => rfl

theorem Agrees.key {k l : Key} (hkey : k.Renamed ρ e l) : k.Renamed other e l := by
  rcases hkey with ⟨hmarked, rfl⟩
  refine ⟨hmarked, ?_⟩
  cases k with
  | float x => exact congrArg Key.float (h.binary hmarked).symm
  | _ => rfl

theorem Agrees.value {v w : Value} (hv : Value.Renamed ρ e v w) : Value.Renamed other e v w := by
  refine Value.Renamed.induction ?constant ?float ?shared ?scope ?list ?map ?host hv
  case constant => exact fun v hv => .constant hv
  case float =>
    intro x hx
    rw [← h.binary hx]
    exact .float hx
  case shared => exact fun place hplace => .shared hplace
  case scope =>
    intro place hplace
    rw [← h.place place hplace]
    exact .scope hplace
  case list =>
    intro items others hitems
    exact .ofItems (hitems.imp fun v w hv => hv.2)
  case map =>
    intro entries others hentries
    exact .ofEntries (hentries.imp fun a b hentry => ⟨h.key hentry.1, hentry.2.2⟩)
  case host =>
    intro id type text attributes others hattributes
    exact .ofAttributes (hattributes.imp fun a b hattribute => ⟨hattribute.1, hattribute.2.2⟩)

theorem Agrees.entries {entries others : Entries Value}
    (hentries : Entries.Renamed ρ e entries others) : Entries.Renamed other e entries others :=
  hentries.imp fun _ _ hentry => ⟨h.key hentry.1, h.value hentry.2⟩

theorem Agrees.container {c d : Container} (hc : c.Renamed ρ e d) : c.Renamed other e d := by
  cases hc with
  | list hitems => exact .list (hitems.imp fun _ _ hv => h.value hv)
  | map hentries => exact .map (h.entries hentries)

end Agreement

end Renaming

/-! # Scopes -/

theorem rel_imp {α β : Type} {R S : α → β → Prop} (h : ∀ a b, R a b → S a b) {a : Option α}
    {b : Option β} (hab : Option.Rel R a b) : Option.Rel S a b := by
  cases hab with
  | some hrel => exact .some (h _ _ hrel)
  | none => exact .none

/-- A scope with renamed contents, in scopes that answer to those around the other. -/
structure Scope.Renamed (ρ : Renaming) (e : Extent) (scope other : Scope) : Prop where
  there : ∀ place ∈ scope.outer, place < e.scopes
  outer : other.outer = scope.outer.map ρ.place
  own : Entries.Renamed ρ e scope.own other.own
  receiver : Option.Rel (Value.Renamed ρ e) scope.receiver other.receiver

theorem Scope.Renamed.mono {f : Extent} (h : e.Within f) {scope other : Scope}
    (hscope : scope.Renamed ρ e other) : scope.Renamed ρ f other where
  there place hplace := Nat.lt_of_lt_of_le (hscope.there place hplace) h.scopes
  outer := hscope.outer
  own := hscope.own.mono h
  receiver := rel_imp (fun _ _ hv => hv.mono h) hscope.receiver

theorem Renaming.Agrees.scope {other : Renaming} (h : ρ.Agrees e other) {s t : Scope}
    (hscope : s.Renamed ρ e t) : s.Renamed other e t where
  there := hscope.there
  outer := by
    rw [hscope.outer]
    exact List.map_congr_left fun place hplace => (h.place place (hscope.there place hplace)).symm
  own := h.entries hscope.own
  receiver := rel_imp (fun _ _ hv => h.value hv) hscope.receiver

/-! # Stores -/

namespace Store

theorem Frames.within {written : Option Nat} {σ τ : Store} (h : Frames written σ τ) :
    σ.extent.Within τ.extent where
  scopes := h.size_le
  shared := Nat.le_of_eq (congrArg Array.size h.shared).symm
  marks := h.mark_le

theorem helper?_renamed {σ τ : Store}
    (h : List.Forall₂ (fun a b => b.1 = a.1 ∧ Value.Renamed ρ e a.2 b.2) σ.helpers τ.helpers)
    (name : String) : Option.Rel (Value.Renamed ρ e) (σ.helper? name) (τ.helper? name) := by
  unfold Store.helper?
  generalize σ.helpers = helpers at h
  generalize τ.helpers = others at h
  induction h with
  | nil => exact .none
  | cons hentry _ ih =>
      rw [List.find?_cons, List.find?_cons, hentry.1]
      split
      · exact .some hentry.2
      · exact ih

/-- Whether every scope of a store has one in the other that answers to it. -/
structure Embeds (ρ : Renaming) (σ τ : Store) : Prop where
  data : Entries.Renamed ρ σ.extent σ.data τ.data
  helpers : List.Forall₂ (fun a b => b.1 = a.1 ∧ Value.Renamed ρ σ.extent a.2 b.2) σ.helpers
    τ.helpers
  shared : List.Forall₂ (Container.Renamed ρ σ.extent) σ.shared.toList τ.shared.toList
  scopes : ∀ place scope, σ.scopes[place]? = some scope →
    ∃ other, τ.scopes[ρ.place place]? = some other ∧ scope.Renamed ρ σ.extent other
  size_le : σ.scopes.size ≤ τ.scopes.size
  place_eq : ∀ i, ρ.place (σ.scopes.size + i) = τ.scopes.size + i
  mark_eq : ∀ i, ρ.mark (σ.nextMark + i) = τ.nextMark + i

namespace Embeds

variable {σ τ : Store} (h : σ.Embeds ρ τ)

include h

section Scope

variable {place : Nat} (hplace : place < σ.scopes.size)

include hplace

theorem exists_scope : ∃ scope other, σ.scopes[place]? = some scope ∧
    τ.scopes[ρ.place place]? = some other ∧ scope.Renamed ρ σ.extent other := by
  rcases h.scopes place _ (Array.getElem?_eq_getElem hplace) with ⟨other, hother, hscope⟩
  exact ⟨_, other, Array.getElem?_eq_getElem hplace, hother, hscope⟩

theorem own : Entries.Renamed ρ σ.extent (σ.own place) (τ.own (ρ.place place)) := by
  rcases h.exists_scope hplace with ⟨scope, other, hs, ht, hscope⟩
  simp only [Store.own, hs, ht]
  exact hscope.own

theorem path_lt : ∀ p ∈ σ.path place, p < σ.scopes.size := by
  rcases h.exists_scope hplace with ⟨scope, other, hs, ht, hscope⟩
  intro p hp
  simp only [Store.path, Store.outer, hs] at hp
  rcases List.mem_cons.mp hp with rfl | houter
  · exact hplace
  · exact hscope.there p houter

theorem path_eq : τ.path (ρ.place place) = (σ.path place).map ρ.place := by
  rcases h.exists_scope hplace with ⟨scope, other, hs, ht, hscope⟩
  simp only [Store.path, Store.outer, hs, ht, hscope.outer, List.map_cons]

theorem bound? {k l : Key} (hkey : l = k.rename ρ) :
    Option.Rel (Value.Renamed ρ σ.extent) (σ.bound? place k) (τ.bound? (ρ.place place) l) := by
  have hscopes : ∀ path : List Nat, (∀ p ∈ path, p < σ.scopes.size) →
      Option.Rel (Value.Renamed ρ σ.extent) (path.findSome? fun p => (σ.own p).get? k)
        ((path.map ρ.place).findSome? fun p => (τ.own p).get? l) := by
    intro path hpath
    induction path with
    | nil => exact .none
    | cons p rest ih =>
        have hhere := (h.own (hpath p List.mem_cons_self)).get? hkey
        rw [List.map_cons, List.findSome?_cons, List.findSome?_cons]
        generalize (σ.own p).get? k = v at hhere ⊢
        generalize (τ.own (ρ.place p)).get? l = w at hhere ⊢
        cases hhere with
        | some hv => exact .some hv
        | none => exact ih fun q hq => hpath q (List.mem_cons_of_mem p hq)
  have hfound := hscopes (σ.path place) (h.path_lt hplace)
  unfold Store.bound?
  rw [h.path_eq hplace]
  generalize ((σ.path place).findSome? fun p => (σ.own p).get? k) = v at hfound ⊢
  generalize (((σ.path place).map ρ.place).findSome? fun p => (τ.own p).get? l) = w at hfound ⊢
  cases hfound with
  | some hv => exact .some hv
  | none => exact h.data.get? hkey

theorem bindings : Entries.Renamed ρ σ.extent (σ.bindings place) (τ.bindings (ρ.place place)) := by
  have hscopes : ∀ path : List Nat, (∀ p ∈ path, p < σ.scopes.size) →
      Entries.Renamed ρ σ.extent
        (path.foldr (fun p all => Entries.merge all (σ.own p)) (Entries.merge [] σ.data))
        ((path.map ρ.place).foldr (fun p all => Entries.merge all (τ.own p))
          (Entries.merge [] τ.data)) := by
    intro path hpath
    induction path with
    | nil => exact Entries.Renamed.merge .nil h.data
    | cons p rest ih =>
        exact (ih fun q hq => hpath q (List.mem_cons_of_mem p hq)).merge
          (h.own (hpath p List.mem_cons_self))
  unfold Store.bindings
  rw [h.path_eq hplace]
  exact hscopes _ (h.path_lt hplace)

theorem receiver : Value.Renamed ρ σ.extent (σ.receiver place) (τ.receiver (ρ.place place)) := by
  rcases h.exists_scope hplace with ⟨scope, other, hs, ht, hscope⟩
  simp only [Store.receiver, hs, ht]
  exact rel_getD_renamed hscope.receiver (.scope hplace)

end Scope

theorem helper? (name : String) :
    Option.Rel (Value.Renamed ρ σ.extent) (σ.helper? name) (τ.helper? name) :=
  helper?_renamed h.helpers name

theorem mirrors : σ.Mirrors ρ τ where
  bound? _ hplace _ _ hkey := h.bound? hplace hkey
  bindings _ hplace := h.bindings hplace
  receiver _ hplace := h.receiver hplace
  helper? := h.helper?
  shared := h.shared
  size_le := h.size_le
  mark_eq := h.mark_eq

/-! # What renders do to stores -/

theorem grow {written also : Option Nat} {σ' τ' : Store} (hσ : Frames written σ σ')
    (hτ : Frames also τ τ') (hsize : σ'.scopes.size ≤ τ'.scopes.size)
    (hscopes : ∀ place scope, σ'.scopes[place]? = some scope →
      ∃ other, τ'.scopes[ρ.place place]? = some other ∧ scope.Renamed ρ σ'.extent other)
    (hplaces : ∀ i, ρ.place (σ'.scopes.size + i) = τ'.scopes.size + i)
    (hmarks : ∀ i, ρ.mark (σ'.nextMark + i) = τ'.nextMark + i) : σ'.Embeds ρ τ' where
  data := by
    rw [hσ.data, hτ.data]
    exact h.data.mono hσ.within
  helpers := by
    rw [hσ.helpers, hτ.helpers]
    exact h.helpers.imp fun _ _ hentry => ⟨hentry.1, hentry.2.mono hσ.within⟩
  shared := by
    rw [hσ.shared, hτ.shared]
    exact h.shared.imp fun _ _ hc => hc.mono hσ.within
  scopes := hscopes
  size_le := hsize
  place_eq := hplaces
  mark_eq := hmarks

theorem mark : Embeds ρ { σ with nextMark := σ.nextMark + 1 }
    { τ with nextMark := τ.nextMark + 1 } := by
  refine h.grow (.mark σ) (.mark τ) h.size_le ?_ h.place_eq fun i => ?_
  · intro place scope hscope
    rcases h.scopes place scope hscope with ⟨other, hother, hrenamed⟩
    exact ⟨other, hother, hrenamed.mono (Frames.mark σ).within⟩
  · dsimp only
    rw [Nat.add_assoc, h.mark_eq (1 + i), Nat.add_assoc]

theorem child {place : Nat} (hplace : place < σ.scopes.size) {bindings others : Entries Value}
    (hbindings : Entries.Renamed ρ σ.extent bindings others) {receiver other : Option Value}
    (hreceiver : Option.Rel (Value.Renamed ρ σ.extent) receiver other) :
    Embeds ρ (σ.child place bindings receiver).2 (τ.child (ρ.place place) others other).2 := by
  have hnew : ρ.place σ.scopes.size = τ.scopes.size := h.place_eq 0
  have hsize : (σ.child place bindings receiver).2.scopes.size = σ.scopes.size + 1 :=
    Array.size_push _
  have hsize' : (τ.child (ρ.place place) others other).2.scopes.size = τ.scopes.size + 1 :=
    Array.size_push _
  have hframes := Frames.child σ place bindings receiver
  refine h.grow hframes (.child τ _ _ _) ?_ ?_ (fun i => ?_) h.mark_eq
  · rw [hsize, hsize']
    exact Nat.succ_le_succ h.size_le
  · intro p scope hscope
    simp only [Store.child, Array.getElem?_push] at hscope ⊢
    by_cases hp : p = σ.scopes.size
    · subst hp
      rw [if_pos rfl] at hscope
      cases hscope
      rw [if_pos hnew]
      refine ⟨_, rfl, Scope.Renamed.mono hframes.within ?_⟩
      exact ⟨h.path_lt hplace, h.path_eq hplace, hbindings.ofPairs, hreceiver⟩
    · rw [if_neg hp] at hscope
      have hne : ρ.place p ≠ τ.scopes.size := by
        intro hsame
        exact hp (ρ.place_injective _ _ (hsame.trans hnew.symm))
      rw [if_neg hne]
      rcases h.scopes p scope hscope with ⟨found, hfound, hrenamed⟩
      exact ⟨found, hfound, hrenamed.mono hframes.within⟩
  · rw [hsize, hsize', Nat.add_assoc, h.place_eq (1 + i), Nat.add_assoc]

theorem bind (place : Nat) (key : Text) {value other : Value}
    (hvalue : Value.Renamed ρ σ.extent value other) :
    Embeds ρ (σ.bind place (.str key) value) (τ.bind (ρ.place place) (.str key) other) := by
  have hsize : (σ.bind place (.str key) value).scopes.size = σ.scopes.size := Array.size_modify
  have hsize' : (τ.bind (ρ.place place) (.str key) other).scopes.size = τ.scopes.size :=
    Array.size_modify
  have hframes := Frames.bind σ place (.str key) value
  refine h.grow hframes (.bind τ _ _ _) ?_ ?_ (fun i => ?_) h.mark_eq
  · rw [hsize, hsize']
    exact h.size_le
  · intro p scope hscope
    simp only [Store.bind, Array.getElem?_modify] at hscope ⊢
    by_cases hp : place = p
    · subst hp
      rw [if_pos rfl] at hscope ⊢
      rcases Option.map_eq_some_iff.mp hscope with ⟨old, hold, rfl⟩
      rcases h.scopes place old hold with ⟨found, hfound, hrenamed⟩
      have hwritten : Scope.Renamed ρ σ.extent { old with own := old.own.put (.str key) value }
          { found with own := found.own.put (.str key) other } :=
        ⟨hrenamed.there, hrenamed.outer, hrenamed.own.put (Key.renamed_str ρ _ _) hvalue,
          hrenamed.receiver⟩
      exact ⟨_, Option.map_eq_some_iff.mpr ⟨found, hfound, rfl⟩, hwritten.mono hframes.within⟩
    · have hne : ρ.place place ≠ ρ.place p := fun hsame => hp (ρ.place_injective _ _ hsame)
      rw [if_neg hp] at hscope
      rw [if_neg hne]
      rcases h.scopes p scope hscope with ⟨found, hfound, hrenamed⟩
      exact ⟨found, hfound, hrenamed.mono hframes.within⟩
  · rw [hsize, hsize']
    exact h.place_eq i

end Embeds

theorem simulation_embeds (ρ : Renaming) (floor : Nat) : Simulation ρ floor (Store.Embeds ρ) where
  mirrors h := h.mirrors
  mark h := h.mark
  record _ _ h := { h with }
  child _ _ _ _ _ h hplace hbindings hreceiver :=
    ⟨h.place_eq 0, h.child hplace.there hbindings hreceiver⟩
  bind place key _ _ h _ hvalue := h.bind place key hvalue

/-! # Closed stores -/

/-- Whether every scope, container and mark that occurs in a store is there. -/
structure IsClosed (σ : Store) : Prop where
  embeds : σ.Embeds .identity σ
  mark_pos : 0 < σ.nextMark

theorem isClosed_of_root {σ : Store} (hscopes : σ.scopes = #[⟨[], [], none⟩])
    (hmark : 0 < σ.nextMark) (hdata : Entries.Renamed .identity σ.extent σ.data σ.data)
    (hhelpers : ∀ entry ∈ σ.helpers, Value.Renamed .identity σ.extent entry.2 entry.2)
    (hshared : ∀ c ∈ σ.shared.toList, c.Renamed .identity σ.extent c) : σ.IsClosed where
  mark_pos := hmark
  embeds := by
    refine ⟨hdata, ?_, List.forall₂_same.mpr hshared, ?_, Nat.le_refl _, fun _ => rfl,
      fun _ => rfl⟩
    · exact List.forall₂_same.mpr fun entry hentry => ⟨rfl, hhelpers entry hentry⟩
    · intro place scope hscope
      have hmem := Array.mem_of_getElem? hscope
      rw [hscopes] at hmem
      have hroot : scope = ⟨[], [], none⟩ := List.mem_singleton.mp (Array.mem_def.mp hmem)
      refine ⟨scope, hscope, ?_⟩
      rw [hroot]
      exact ⟨fun _ hplace => (List.not_mem_nil hplace).elim, rfl, .nil, .none⟩

end Store

/-! # Later stores -/

def moveUp (bound more n : Nat) : Nat :=
  if n < bound then n else n + more

theorem moveUp_injective (bound more m n : Nat) (h : moveUp bound more m = moveUp bound more n) :
    m = n := by
  unfold moveUp at h
  split at h <;> split at h <;> omega

theorem moveUp_add {bound new : Nat} (h : bound ≤ new) (i : Nat) :
    moveUp bound (new - bound) (bound + i) = new + i := by
  unfold moveUp
  rw [if_neg (Nat.not_lt.mpr (Nat.le_add_right bound i))]
  omega

/-- What comes next in one store is renamed to what comes next in a later one. -/
def Renaming.later (σ τ : Store) (hmark : 0 < σ.nextMark) : Renaming where
  place := moveUp σ.scopes.size (τ.scopes.size - σ.scopes.size)
  mark := moveUp σ.nextMark (τ.nextMark - σ.nextMark)
  place_injective := moveUp_injective _ _
  mark_injective := moveUp_injective _ _
  mark_zero := if_pos hmark

theorem Renaming.agrees_later (σ τ : Store) (hmark : 0 < σ.nextMark) :
    Renaming.identity.Agrees σ.extent (.later σ τ hmark) where
  place _ hplace := if_pos hplace
  mark _ hmark := if_pos hmark

theorem Store.IsClosed.embeds_later {σ τ : Store} (h : σ.IsClosed)
    (hframes : Store.Frames none σ τ) : σ.Embeds (.later σ τ h.mark_pos) τ := by
  have hagrees := Renaming.agrees_later σ τ h.mark_pos
  refine ⟨?_, ?_, ?_, ?_, hframes.size_le, moveUp_add hframes.size_le,
    moveUp_add hframes.mark_le⟩
  · rw [hframes.data]
    exact hagrees.entries h.embeds.data
  · rw [hframes.helpers]
    exact h.embeds.helpers.imp fun _ _ hentry => ⟨hentry.1, hagrees.value hentry.2⟩
  · rw [hframes.shared]
    exact h.embeds.shared.imp fun _ _ hc => hagrees.container hc
  · intro place scope hscope
    have hplace : place < σ.scopes.size := (Array.getElem?_eq_some_iff.mp hscope).1
    rcases h.embeds.scopes place scope hscope with ⟨other, hother, hrenamed⟩
    have hsame : (Renaming.later σ τ h.mark_pos).place place = place := if_pos hplace
    refine ⟨other, ?_, hagrees.scope hrenamed⟩
    rw [hsame, hframes.kept place hplace (Option.some_ne_none place).symm]
    exact hother

end Stencil
