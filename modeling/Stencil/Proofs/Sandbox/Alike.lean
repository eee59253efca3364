import Mathlib.Data.List.Forall2
import Stencil.Expression.Evaluation

/-!
# Alike values

An object from outside may have attributes that views cannot see: those whose names
start with an underscore, and those that are functions. Two values are alike if they
differ in nothing but such attributes, at whatever depth. Two stores are alike if all
that they hold is alike, place by place.
-/

namespace Stencil

/-! # Values -/

namespace Value

def isAtom : Value → Bool
  | list _ => false
  | map _ => false
  | host _ _ _ _ => false
  | _ => true

/-- What an object has under a name without an underscore in front, unless it is a function. -/
def publicValue? (attributes : List (String × Value)) (name : String) : Option Value :=
  if name.toList.head? = some '_' then none
  else
    match attributes.find? fun entry => entry.1 == name with
    | some entry => if entry.2.isCallable then none else some entry.2
    | none => none

inductive Alike : Value → Value → Prop where
  | atom {v : Value} : v.isAtom = true → Alike v v
  | list {items others : List Value} :
      items.length = others.length →
      (∀ i (h : i < items.length) (k : i < others.length),
        Alike (items.get ⟨i, h⟩) (others.get ⟨i, k⟩)) →
      Alike (.list items) (.list others)
  | map {entries others : List (Key × Value)} :
      entries.map (·.1) = others.map (·.1) →
      (∀ i (h : i < (entries.map (·.2)).length) (k : i < (others.map (·.2)).length),
        Alike ((entries.map (·.2)).get ⟨i, h⟩) ((others.map (·.2)).get ⟨i, k⟩)) →
      Alike (.map entries) (.map others)
  /-- The same names are public, with alike values; other attributes may be what they like. -/
  | host {id : Nat} {type text : String} {attributes others : List (String × Value)} :
      (∀ name, (publicValue? attributes name).isSome = (publicValue? others name).isSome) →
      (∀ name v w, publicValue? attributes name = some v → publicValue? others name = some w →
        Alike v w) →
      Alike (.host id type text attributes) (.host id type text others)

def LabelledAlike {κ : Type} (a b : κ × Value) : Prop :=
  a.1 = b.1 ∧ Alike a.2 b.2

end Value

def Entries.Alike (entries others : Entries Value) : Prop :=
  List.Forall₂ Value.LabelledAlike entries others

theorem Value.Alike.ofItems {items others : List Value} (h : List.Forall₂ Alike items others) :
    Alike (.list items) (.list others) := by
  rcases List.forall₂_iff_get.mp h with ⟨hlength, hget⟩
  exact .list hlength hget

theorem forall₂_labelled {κ : Type} {R : Value → Value → Prop}
    {entries others : List (κ × Value)} (hkeys : entries.map (·.1) = others.map (·.1))
    (hvalues : List.Forall₂ R (entries.map (·.2)) (others.map (·.2))) :
    List.Forall₂ (fun a b => a.1 = b.1 ∧ R a.2 b.2) entries others := by
  induction entries generalizing others with
  | nil =>
      cases others with
      | nil => exact .nil
      | cons entry rest => cases hkeys
  | cons entry rest ih =>
      cases others with
      | nil => cases hkeys
      | cons other more =>
          simp only [List.map_cons, List.cons.injEq] at hkeys
          simp only [List.map_cons] at hvalues
          cases hvalues with
          | cons hvalue hrest => exact .cons ⟨hkeys.1, hvalue⟩ (ih hkeys.2 hrest)

theorem forall₂_of_labelled {κ : Type} {R : Value → Value → Prop}
    {entries others : List (κ × Value)}
    (h : List.Forall₂ (fun a b => a.1 = b.1 ∧ R a.2 b.2) entries others) :
    entries.map (·.1) = others.map (·.1) ∧
      List.Forall₂ R (entries.map (·.2)) (others.map (·.2)) := by
  induction h with
  | nil => exact ⟨rfl, .nil⟩
  | cons hentry _ ih =>
      simp only [List.map_cons, List.cons.injEq]
      exact ⟨⟨hentry.1, ih.1⟩, .cons hentry.2 ih.2⟩

theorem Value.Alike.ofEntries {entries others : Entries Value} (h : Entries.Alike entries others) :
    Alike (.map entries) (.map others) := by
  rcases forall₂_of_labelled h with ⟨hkeys, hvalues⟩
  exact .map hkeys (List.forall₂_iff_get.mp hvalues).2

/-! # A value is like itself -/

namespace Value

theorem mem_of_publicValue? {attributes : List (String × Value)} {name : String} {v : Value}
    (h : publicValue? attributes name = some v) :
    ∃ entry ∈ attributes, entry.2 = v := by
  unfold publicValue? at h
  split at h
  · cases h
  · split at h
    · rename_i entry hfind
      split at h
      · cases h
      · cases h
        exact ⟨entry, List.mem_of_find?_eq_some hfind, rfl⟩
    · cases h

mutual

theorem Alike.refl : (v : Value) → Alike v v
  | .list items => .ofItems (List.forall₂_same.mpr (alike_of_mem items))
  | .map entries => .ofEntries (List.forall₂_same.mpr fun entry hentry =>
      ⟨rfl, alike_of_mem_entries entries entry hentry⟩)
  | .host _ _ _ attributes => .host (fun _ => rfl) fun name v w hv hw => by
      rcases mem_of_publicValue? hv with ⟨entry, hmem, hentry⟩
      rw [hv, Option.some.injEq] at hw
      rw [← hw, ← hentry]
      exact alike_of_mem_attributes attributes entry hmem
  | .undefined => .atom rfl
  | .null => .atom rfl
  | .bool _ => .atom rfl
  | .int _ => .atom rfl
  | .float _ => .atom rfl
  | .str _ => .atom rfl
  | .callable _ => .atom rfl
  | .jsonTools => .atom rfl
  | .shared _ => .atom rfl
  | .scope _ => .atom rfl

theorem alike_of_mem : (items : List Value) → ∀ v ∈ items, Alike v v
  | [], _, h => absurd h List.not_mem_nil
  | v :: rest, w, h => by
      rcases List.mem_cons.mp h with h | h
      · rw [h]
        exact Alike.refl v
      · exact alike_of_mem rest w h

theorem alike_of_mem_entries :
    (entries : List (Key × Value)) → ∀ entry ∈ entries, Alike entry.2 entry.2
  | [], _, h => absurd h List.not_mem_nil
  | (key, v) :: rest, entry, h => by
      rcases List.mem_cons.mp h with h | h
      · rw [h]
        exact Alike.refl v
      · exact alike_of_mem_entries rest entry h

theorem alike_of_mem_attributes :
    (attributes : List (String × Value)) → ∀ entry ∈ attributes, Alike entry.2 entry.2
  | [], _, h => absurd h List.not_mem_nil
  | (name, v) :: rest, entry, h => by
      rcases List.mem_cons.mp h with h | h
      · rw [h]
        exact Alike.refl v
      · exact alike_of_mem_attributes rest entry h

end

/-! # What can be seen of a value -/

section Seen

variable {v w : Value} (h : Alike v w)

include h

theorem Alike.number?_eq : v.number? = w.number? := by
  cases h <;> rfl

theorem Alike.key?_eq : v.key? = w.key? := by
  cases h <;> rfl

theorem Alike.place?_eq : v.place? = w.place? := by
  cases h <;> rfl

theorem Alike.text?_eq : v.text? = w.text? := by
  cases h <;> rfl

theorem Alike.isUndefined_eq : v.isUndefined = w.isUndefined := by
  cases h <;> rfl

theorem Alike.isNullish_eq : v.isNullish = w.isNullish := by
  cases h <;> rfl

theorem Alike.isBool_eq : v.isBool = w.isBool := by
  cases h <;> rfl

theorem Alike.isCallable_eq : v.isCallable = w.isCallable := by
  cases h <;> rfl

theorem Alike.isStr_eq : v.isStr = w.isStr := by
  cases h <;> rfl

theorem Alike.truthy_eq : v.truthy = w.truthy := by
  cases h <;> rfl

end Seen

theorem Alike.eq_of_isAtom {v w : Value} (h : Alike v w) (hv : v.isAtom = true) : w = v := by
  cases h with
  | atom => rfl
  | list => cases hv
  | map => cases hv
  | host => cases hv

theorem Alike.exists_items {items : List Value} {w : Value} (h : Alike (.list items) w) :
    ∃ others, w = .list others ∧ List.Forall₂ Alike items others := by
  cases h with
  | atom hatom => cases hatom
  | list hlength hget => exact ⟨_, rfl, List.forall₂_iff_get.mpr ⟨hlength, hget⟩⟩

theorem Alike.exists_entries {entries : Entries Value} {w : Value} (h : Alike (.map entries) w) :
    ∃ others, w = .map others ∧ Entries.Alike entries others := by
  cases h with
  | atom hatom => cases hatom
  | map hkeys hvalues =>
      have hlength := congrArg List.length hkeys
      simp only [List.length_map] at hlength
      have hall := List.forall₂_iff_get.mpr ⟨by simpa using hlength, hvalues⟩
      exact ⟨_, rfl, forall₂_labelled hkeys hall⟩

/-! # Attributes -/

theorem visibleAttribute_ofString (attributes : List (String × Value)) (name : String) :
    visibleAttribute attributes (Text.ofString name) =
      (publicValue? attributes name).getD undefined := by
  have hhead : ((Text.ofString name).points.head? = some (.char '_')) ↔
      name.toList.head? = some '_' := by
    simp [Text.ofString, Text.ofChars]
  have htest : (fun entry : String × Value => Text.ofString name == Text.ofString entry.1) =
      fun entry => entry.1 == name := by
    funext entry
    rw [Bool.eq_iff_iff, beq_iff_eq, beq_iff_eq]
    constructor
    · intro h
      exact (Text.ofString_injective h).symm
    · intro h
      rw [h]
  simp only [visibleAttribute, publicValue?, htest]
  by_cases hprivate : name.toList.head? = some '_'
  · simp [hprivate, hhead]
  · simp only [hprivate, if_false]
    rw [if_neg (by simpa [hhead] using hprivate)]
    cases attributes.find? fun entry => entry.1 == name with
    | none => rfl
    | some entry =>
        dsimp only
        split <;> rfl

theorem visibleAttribute_of_ne {name : Text} (h : ∀ s : String, Text.ofString s ≠ name)
    (attributes : List (String × Value)) :
    visibleAttribute attributes name = undefined := by
  unfold visibleAttribute
  split
  · rfl
  · split
    · rename_i entry hfind
      have hname := List.find?_some hfind
      rw [beq_iff_eq] at hname
      exact absurd hname.symm (h entry.1)
    · rfl

theorem visibleAttribute_alike {attributes others : List (String × Value)}
    (hnames : ∀ name, (publicValue? attributes name).isSome = (publicValue? others name).isSome)
    (hvalues : ∀ name v w, publicValue? attributes name = some v →
      publicValue? others name = some w → Alike v w) (name : Text) :
    Alike (visibleAttribute attributes name) (visibleAttribute others name) := by
  by_cases hstring : ∃ s : String, Text.ofString s = name
  · rcases hstring with ⟨s, rfl⟩
    have hpublic := hnames s
    rw [visibleAttribute_ofString, visibleAttribute_ofString]
    cases hv : publicValue? attributes s with
    | none =>
        rw [hv, Option.isSome_none] at hpublic
        rw [Option.isNone_iff_eq_none.mp (Option.isSome_eq_false_iff.mp hpublic.symm)]
        exact .atom rfl
    | some v =>
        rw [hv, Option.isSome_some] at hpublic
        rcases Option.isSome_iff_exists.mp hpublic.symm with ⟨w, hw⟩
        rw [hw]
        exact hvalues s v w hv hw
  · have hnone : ∀ s : String, Text.ofString s ≠ name := by
      intro s hs
      exact hstring ⟨s, hs⟩
    rw [visibleAttribute_of_ne hnone, visibleAttribute_of_ne hnone]
    exact .atom rfl

end Value
end Stencil
