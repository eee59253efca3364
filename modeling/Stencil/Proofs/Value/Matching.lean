import Mathlib
import Stencil.Proofs.Value.Symmetry

/-!
# Equality, position by position

A row of selectors leads from a value to what stands in it at some depth. Two values match if they
agree at the end of each row: both are lists of one length there, or mappings with the same keys,
or leaves that agree, or neither has anything there. Values are strictly equal exactly if they match
and are the same at the top. Further inwards a boolean agrees with the number that it counts as, and
a value that is not a number with itself, as both do wherever contents are compared.
-/

namespace Stencil

/-! # Mappings with the same keys -/

namespace Entries

variable {α β : Type}

theorem get?_congr {a b : Key} (h : a.same b = true) (entries : Entries α) :
    entries.get? a = entries.get? b := by
  have hfind : (fun entry : Key × α => entry.1.same a) = fun entry => entry.1.same b := by
    funext entry
    rw [Bool.eq_iff_iff]
    exact ⟨fun hsame => Key.same_trans hsame h, fun hsame => Key.same_trans hsame (Key.same_symm h)⟩
  rw [get?, get?, hfind]

theorem exists_get?_of_has {entries : Entries α} {key : Key} (h : entries.has key = true) :
    ∃ a, entries.get? key = some a :=
  Option.isSome_iff_exists.mp (has_iff.mp h)

theorem has_of_mem {entries : Entries α} {entry : Key × α} (h : entry ∈ entries) :
    entries.has entry.1 = true :=
  List.any_eq_true.mpr ⟨entry, h, Key.same_refl entry.1⟩

theorem length_le_of_has {entries : Entries α} {others : Entries β} (hdistinct : entries.Distinct)
    (h : ∀ entry ∈ entries, others.has entry.1 = true) : entries.length ≤ others.length := by
  cases entries with
  | nil => exact Nat.zero_le _
  | cons first rest =>
      rcases exists_get?_of_has (h first List.mem_cons_self) with ⟨b, _⟩
      have : Nonempty (Key × β) := ⟨(first.1, b)⟩
      have hfound : ∀ entry ∈ first :: rest, ∃ b, others.get? entry.1 = some b ∧ True := by
        intro entry hentry
        rcases exists_get?_of_has (h entry hentry) with ⟨b, hb⟩
        exact ⟨b, hb, trivial⟩
      rcases exists_partners (R := fun _ _ => True) hdistinct hfound with ⟨partner, hsubperm, -⟩
      simpa using hsubperm.length_le

theorem length_eq_of_has {entries : Entries α} {others : Entries β} (hentries : entries.Distinct)
    (hothers : others.Distinct) (h : ∀ key, entries.has key = others.has key) :
    entries.length = others.length :=
  Nat.le_antisymm
    (length_le_of_has hentries fun entry hentry => h entry.1 ▸ has_of_mem hentry)
    (length_le_of_has hothers fun other hother => h other.1 ▸ has_of_mem hother)

theorem rel_get?_iff {entries : Entries α} {others : Entries β} (hentries : entries.Distinct)
    (hothers : others.Distinct) {R : α → β → Prop} :
    ((∀ key, entries.has key = others.has key) ∧
        ∀ key, Option.Rel R (entries.get? key) (others.get? key)) ↔
      entries.length = others.length ∧
        ∀ entry ∈ entries, ∃ b, others.get? entry.1 = some b ∧ R entry.2 b := by
  constructor
  · rintro ⟨hkeys, hrel⟩
    refine ⟨length_eq_of_has hentries hothers hkeys, fun entry hentry => ?_⟩
    have hown := get?_of_mem hentries hentry (Key.same_refl entry.1)
    rcases rel_cases (hrel entry.1) with ⟨hnone, -⟩ | ⟨a, b, ha, hb, hR⟩
    · cases hnone.symm.trans hown
    · cases ha.symm.trans hown
      exact ⟨b, hb, hR⟩
  · rintro ⟨hlength, hfound⟩
    have hback := match_back hentries hlength hfound
    have hkeys : ∀ key, entries.has key = others.has key := by
      intro key
      rw [Bool.eq_iff_iff]
      constructor
      · intro h
        rcases List.any_eq_true.mp h with ⟨entry, hentry, hsame⟩
        rcases hfound entry hentry with ⟨b, hb, -⟩
        rw [has_iff, ← get?_congr hsame, hb]
        rfl
      · intro h
        rcases List.any_eq_true.mp h with ⟨other, hother, hsame⟩
        rcases hback other hother with ⟨a, ha, -⟩
        rw [has_iff, ← get?_congr hsame, ha]
        rfl
    refine ⟨hkeys, fun key => ?_⟩
    cases ha : entries.get? key with
    | none =>
        have hnone : others.has key = false := by
          rw [← hkeys key, Bool.eq_false_iff, Ne, has_iff, ha]
          exact Bool.false_ne_true
        cases hb : others.get? key with
        | none => exact .none
        | some b =>
            have hthere : others.has key = true := has_iff.mpr (by rw [hb]; rfl)
            cases hnone.symm.trans hthere
    | some a =>
        rcases mem_of_get? ha with ⟨entry, hentry, hsame, rfl⟩
        rcases hfound entry hentry with ⟨b, hb, hR⟩
        rw [← get?_congr hsame, hb]
        exact .some hR

end Entries

/-! # Leaves -/

namespace Value

inductive SameLeaf : Value → Value → Prop where
  | undefined : SameLeaf .undefined .undefined
  | null : SameLeaf .null .null
  | bool (b : Bool) : SameLeaf (.bool b) (.bool b)
  | number {x y : Number} (h : x.equal y = true) : SameLeaf (.ofNumber x) (.ofNumber y)
  | str (s : Text) : SameLeaf (.str s) (.str s)
  | callable (f : Callable) : SameLeaf (.callable f) (.callable f)
  | host (id : Nat) (type text type' text' : String)
      (attributes attributes' : List (String × Value)) :
      SameLeaf (.host id type text attributes) (.host id type' text' attributes')

def ofBool (b : Bool) : Number :=
  .int (if b then 1 else 0)

/-- A boolean and a number, of which one is taken for the other. -/
inductive Coerced : Value → Value → Prop where
  | bool {b : Bool} {y : Number} (h : (ofBool b).equal y = true) :
      Coerced (.bool b) (.ofNumber y)
  | number {x : Number} {b : Bool} (h : x.equal (ofBool b) = true) :
      Coerced (.ofNumber x) (.bool b)

theorem ofBool_equal (a b : Bool) : (ofBool a).equal (ofBool b) = (a == b) := by
  cases a <;> cases b <;> rfl

theorem number?_cases (v : Value) :
    v.number? = none ∨ (∃ b, v = .bool b) ∨ ∃ x, v = .ofNumber x := by
  cases v with
  | bool b => exact .inr (.inl ⟨b, rfl⟩)
  | int n => exact .inr (.inr ⟨.int n, rfl⟩)
  | float x => exact .inr (.inr ⟨.float x, rfl⟩)
  | _ => exact .inl rfl

theorem number?_ofNumber (x : Number) : (ofNumber x).number? = some x := by
  cases x <;> rfl

theorem isBool_ofNumber (x : Number) : (ofNumber x).isBool = false := by
  cases x <;> rfl

theorem sameLeaf_of_emblem {v w : Value} (hsome : v.emblem?.isSome = true)
    (h : v.emblem? = w.emblem?) : SameLeaf v w := by
  cases v <;> cases w <;> simp [emblem?] at hsome h
  case undefined.undefined => exact .undefined
  case null.null => exact .null
  case str.str => exact h ▸ .str _
  case callable.callable => exact h ▸ .callable _
  case host.host => exact h ▸ .host ..

theorem plainEqual_iff {v w : Value} :
    v.plainEqual w = true ↔ SameLeaf v w ∨ Coerced v w := by
  constructor
  · intro h
    rw [plainEqual_def] at h
    rcases v.number?_cases with hv | ⟨a, rfl⟩ | ⟨x, rfl⟩
    · rw [hv, Bool.and_eq_true, beq_iff_eq] at h
      exact .inl (sameLeaf_of_emblem h.1 h.2)
    all_goals rcases w.number?_cases with hw | ⟨b, rfl⟩ | ⟨y, rfl⟩
    · rw [hw] at h
      cases h
    · have hsame : a = b := eq_of_beq ((ofBool_equal a b).symm.trans h)
      exact .inl (hsame ▸ .bool a)
    · rw [number?_ofNumber] at h
      exact .inr (.bool h)
    · rw [hw, number?_ofNumber] at h
      cases x <;> cases h
    · rw [number?_ofNumber] at h
      exact .inr (.number h)
    · rw [number?_ofNumber, number?_ofNumber] at h
      exact .inl (.number h)
  · rw [plainEqual_def]
    rintro (h | h)
    · cases h with
      | number h =>
          rw [number?_ofNumber, number?_ofNumber]
          exact h
      | bool b => exact (ofBool_equal b b).trans (beq_self_eq_true b)
      | _ => simp [number?, emblem?]
    · cases h with
      | bool h =>
          rw [number?_ofNumber]
          exact h
      | number h =>
          rw [number?_ofNumber]
          exact h

theorem eq_of_isNullish {v : Value} (h : v.isNullish = true) : v = .undefined ∨ v = .null := by
  cases v <;> first | exact .inl rfl | exact .inr rfl | cases h

theorem eq_of_identical {v w : Value} (h : v.identical w = true) : v = w := by
  cases v with
  | float x =>
      cases x with
      | nan m =>
          cases w with
          | float y =>
              cases y with
              | nan n => rw [eq_of_beq (a := m) (b := n) h]
              | _ => cases h
          | _ => cases h
      | _ => cases w <;> cases h
  | shared p =>
      cases w with
      | shared q =>
          have hplace : Place.shared p = .shared q := eq_of_beq h
          cases hplace
          rfl
      | scope => cases h
      | _ => cases h
  | scope p =>
      cases w with
      | scope q =>
          have hplace : Place.scope p = .scope q := eq_of_beq h
          cases hplace
          rfl
      | shared => cases h
      | _ => cases h
  | _ => cases w <;> cases h

end Value

/-! # Rows of selectors -/

/-- One step into a container: to an item of a list, or to what is found under a key. -/
inductive Selector where
  | item (n : Nat)
  | entry (key : Key)

namespace Store

def part? (σ : Store) (v : Value) : Selector → Option Value
  | .item n => (σ.items? v).bind fun items => items[n]?
  | .entry key => (σ.entries? v).bind fun entries => entries.get? key

def at? (σ : Store) : Value → List Selector → Option Value
  | v, [] => some v
  | v, selector :: rest => (σ.part? v selector).bind fun u => σ.at? u rest

inductive Agrees (σ : Store) : Value → Value → Prop where
  | list {v w : Value} {items others : List Value} (hv : σ.shape v = .list items)
      (hw : σ.shape w = .list others) (hlength : items.length = others.length) : Agrees σ v w
  | map {v w : Value} {entries others : Entries Value} (hv : σ.shape v = .map entries)
      (hw : σ.shape w = .map others) (hkeys : ∀ key, entries.has key = others.has key) :
      Agrees σ v w
  | leaf {v w : Value} (h : v.SameLeaf w) : Agrees σ v w
  | coerced {v w : Value} (h : v.Coerced w) : Agrees σ v w
  | nan (mark : Nat) : Agrees σ (.float (.nan mark)) (.float (.nan mark))

/-- Two values agree at the end of every row of selectors. -/
def Matches (σ : Store) (v w : Value) : Prop :=
  ∀ path, Option.Rel σ.Agrees (σ.at? v path) (σ.at? w path)

variable {σ : Store} {v w : Value}

theorem matches_iff :
    σ.Matches v w ↔
      σ.Agrees v w ∧ ∀ selector, Option.Rel σ.Matches (σ.part? v selector) (σ.part? w selector) := by
  constructor
  · intro h
    constructor
    · rcases rel_cases (h []) with ⟨hnone, -⟩ | ⟨a, b, ha, hb, hagrees⟩
      · cases hnone
      · cases ha
        cases hb
        exact hagrees
    · intro selector
      have hinside : ∀ rest, Option.Rel σ.Agrees ((σ.part? v selector).bind (σ.at? · rest))
          ((σ.part? w selector).bind (σ.at? · rest)) := fun rest => h (selector :: rest)
      cases hv : σ.part? v selector <;> cases hw : σ.part? w selector <;>
        simp only [hv, hw, Option.bind_none, Option.bind_some] at hinside
      · exact .none
      · cases hinside []
      · cases hinside []
      · exact .some hinside
  · rintro ⟨hagrees, hinside⟩ path
    cases path with
    | nil => exact .some hagrees
    | cons selector rest =>
        rw [at?, at?]
        rcases rel_cases (hinside selector) with ⟨hv, hw⟩ | ⟨a, b, hv, hw, hmatches⟩
        · rw [hv, hw]
          exact .none
        · rw [hv, hw]
          exact hmatches rest

/-! # Shapes of values that agree -/

theorem shape_ofNumber (x : Number) : σ.shape (.ofNumber x) = .plain := by
  cases x <;> rfl

theorem plain_of_sameLeaf (h : v.SameLeaf w) : σ.shape v = .plain ∧ σ.shape w = .plain := by
  cases h with
  | number => exact ⟨shape_ofNumber _, shape_ofNumber _⟩
  | _ => exact ⟨rfl, rfl⟩

theorem plain_of_coerced (h : v.Coerced w) : σ.shape v = .plain ∧ σ.shape w = .plain := by
  cases h with
  | bool => exact ⟨rfl, shape_ofNumber _⟩
  | number => exact ⟨shape_ofNumber _, rfl⟩

theorem Agrees.cases_shape (h : σ.Agrees v w) :
    (∃ items others, σ.shape v = .list items ∧ σ.shape w = .list others ∧
        items.length = others.length) ∨
      (∃ entries others, σ.shape v = .map entries ∧ σ.shape w = .map others ∧
        ∀ key, entries.has key = others.has key) ∨
      (σ.shape v = .plain ∧ σ.shape w = .plain ∧
        (v.SameLeaf w ∨ v.Coerced w ∨ ∃ mark, v = .float (.nan mark) ∧ w = .float (.nan mark))) := by
  cases h with
  | list hv hw hlength => exact .inl ⟨_, _, hv, hw, hlength⟩
  | map hv hw hkeys => exact .inr (.inl ⟨_, _, hv, hw, hkeys⟩)
  | leaf h => exact .inr (.inr ⟨(plain_of_sameLeaf h).1, (plain_of_sameLeaf h).2, .inl h⟩)
  | coerced h => exact .inr (.inr ⟨(plain_of_coerced h).1, (plain_of_coerced h).2, .inr (.inl h)⟩)
  | nan mark => exact .inr (.inr ⟨rfl, rfl, .inr (.inr ⟨mark, rfl, rfl⟩)⟩)

/-! # Values that match themselves -/

theorem mem_inside_of_part? {selector : Selector} {u : Value} (h : σ.part? v selector = some u) :
    u ∈ σ.inside v := by
  cases selector with
  | item n =>
      rcases Option.bind_eq_some_iff.mp h with ⟨items, hitems, hu⟩
      rw [items?_inside hitems]
      exact List.mem_of_getElem? hu
  | entry key =>
      rcases Option.bind_eq_some_iff.mp h with ⟨entries, hentries, hu⟩
      rw [entries?_inside hentries]
      exact mem_values_of_get? hu

theorem reaches_of_at? {path : List Selector} {u : Value} (h : σ.at? v path = some u) :
    σ.Reaches v u := by
  induction path generalizing v with
  | nil =>
      cases h
      exact .refl
  | cons selector rest ih =>
      rcases Option.bind_eq_some_iff.mp h with ⟨w, hw, hu⟩
      exact .head (mem_inside_of_part? hw) (ih hu)

theorem agrees_self (hplace : σ.shape v = .plain → v.place? = none) : σ.Agrees v v := by
  cases hshape : σ.shape v with
  | list items => exact .list hshape hshape rfl
  | map entries => exact .map hshape hshape fun _ => rfl
  | plain =>
      have hself : v.plainEqual v = true → σ.Agrees v v := fun h =>
        (Value.plainEqual_iff.mp h).elim .leaf .coerced
      cases v with
      | float x =>
          cases x with
          | nan mark => exact .nan mark
          | _ => exact hself (Number.equal_iff.mpr ⟨_, rfl, rfl⟩)
      | bool b => exact .leaf (.bool b)
      | int n => exact hself (Number.equal_iff.mpr ⟨_, rfl, rfl⟩)
      | undefined => exact .leaf .undefined
      | null => exact .leaf .null
      | str s => exact .leaf (.str s)
      | callable f => exact .leaf (.callable f)
      | host => exact .leaf (.host ..)
      | shared => cases hplace hshape
      | scope => cases hshape
      | list => cases hshape
      | map => cases hshape
      | jsonTools => cases hshape

theorem matches_self (hv : σ.IsKept v) : σ.Matches v v := by
  intro path
  cases hfound : σ.at? v path with
  | none => exact .none
  | some u =>
      have hkept : σ.IsKept u :=
        ⟨fun w entries hw => hv.distinct w entries ((reaches_of_at? hfound).trans hw),
          fun place hplace => hv.stored place ((reaches_of_at? hfound).trans hplace)⟩
      exact .some (agrees_self hkept.placeless)

/-! # Containers that match -/

section Containers

variable {items others : List Value}

theorem part?_item_of_list (hv : σ.shape v = .list items) (n : Nat) :
    σ.part? v (.item n) = items[n]? := by
  rw [part?, items?_of_shape hv, Option.bind_some]

theorem part?_entry_of_list (hv : σ.shape v = .list items) (key : Key) :
    σ.part? v (.entry key) = none := by
  rw [part?, entries?, hv]
  rfl

theorem matches_of_list_iff (hv : σ.shape v = .list items) (hw : σ.shape w = .list others) :
    σ.Matches v w ↔
      items.length = others.length ∧ ∀ pair ∈ items.zip others, σ.Matches pair.1 pair.2 := by
  have hrow : items.length = others.length ∧ (∀ pair ∈ items.zip others, σ.Matches pair.1 pair.2) ↔
      List.Forall₂ σ.Matches items others := by
    rw [List.forall₂_iff_zip]
    exact and_congr_right fun _ => ⟨fun h _ _ hpair => h _ hpair, fun h pair hpair => h hpair⟩
  rw [matches_iff]
  constructor
  · rintro ⟨hagrees, hinside⟩
    have hlength : items.length = others.length := by
      rcases hagrees.cases_shape with ⟨_, _, hv', hw', hlength⟩ | ⟨_, _, hv', -⟩ | ⟨hv', -⟩
      · cases hv.symm.trans hv'
        cases hw.symm.trans hw'
        exact hlength
      · cases hv.symm.trans hv'
      · cases hv.symm.trans hv'
    refine ⟨hlength, fun pair hpair => ?_⟩
    rcases List.mem_iff_getElem?.mp hpair with ⟨n, hn⟩
    rcases List.getElem?_zip_eq_some.mp hn with ⟨ha, hb⟩
    have hsame := hinside (.item n)
    rw [part?_item_of_list hv, part?_item_of_list hw, ha, hb] at hsame
    cases hsame with
    | some h => exact h
  · intro h
    refine ⟨.list hv hw h.1, fun selector => ?_⟩
    cases selector with
    | item n =>
        rw [part?_item_of_list hv, part?_item_of_list hw]
        exact forall₂_getElem? (hrow.mp h) n
    | entry key =>
        rw [part?_entry_of_list hv, part?_entry_of_list hw]
        exact .none

section Mappings

variable {entries others : Entries Value}

theorem part?_entry_of_map (hv : σ.shape v = .map entries) (key : Key) :
    σ.part? v (.entry key) = entries.get? key := by
  rw [part?, entries?_of_shape hv, Option.bind_some]

theorem part?_item_of_map (hv : σ.shape v = .map entries) (n : Nat) :
    σ.part? v (.item n) = none := by
  rw [part?, items?, hv]
  rfl

theorem matches_of_map_iff (hv : σ.shape v = .map entries) (hw : σ.shape w = .map others)
    (hentries : entries.Distinct) (hothers : others.Distinct) :
    σ.Matches v w ↔
      entries.length = others.length ∧
        ∀ entry ∈ entries, ∃ b, others.get? entry.1 = some b ∧ σ.Matches entry.2 b := by
  rw [← Entries.rel_get?_iff hentries hothers, matches_iff]
  constructor
  · rintro ⟨hagrees, hinside⟩
    refine ⟨?_, fun key => ?_⟩
    · rcases hagrees.cases_shape with ⟨_, _, hv', -⟩ | ⟨_, _, hv', hw', hkeys⟩ | ⟨hv', -⟩
      · cases hv.symm.trans hv'
      · cases hv.symm.trans hv'
        cases hw.symm.trans hw'
        exact hkeys
      · cases hv.symm.trans hv'
    · have hsame := hinside (.entry key)
      rwa [part?_entry_of_map hv, part?_entry_of_map hw] at hsame
  · rintro ⟨hkeys, hrel⟩
    refine ⟨.map hv hw hkeys, fun selector => ?_⟩
    cases selector with
    | item n =>
        rw [part?_item_of_map hv, part?_item_of_map hw]
        exact .none
    | entry key =>
        rw [part?_entry_of_map hv, part?_entry_of_map hw]
        exact hrel key

end Mappings

end Containers

/-! # Equality is matching -/

theorem matches_of_plain_iff (hv : σ.shape v = .plain) (hw : σ.shape w = .plain) :
    σ.Matches v w ↔ σ.Agrees v w := by
  rw [matches_iff]
  refine and_iff_left fun selector => ?_
  have hnone : ∀ u, σ.shape u = .plain → σ.part? u selector = none := by
    intro u hu
    cases selector with
    | item => rw [part?, items?, hu, Option.bind_none]
    | entry => rw [part?, entries?, hu, Option.bind_none]
  rw [hnone v hv, hnone w hw]
  exact .none

/-- The comparison of two values has an end, which says whether they match unless they are one. -/
def Tells (σ : Store) (v w : Value) : Prop :=
  ∃ c, σ.equal v w = .ok c ∧ ((v.identical w || c) = true ↔ σ.Matches v w)

def verdict (σ : Store) (v w : Value) : Bool :=
  (σ.equal v w).toOption.getD false

theorem Tells.equal_eq (h : σ.Tells v w) : σ.equal v w = .ok (σ.verdict v w) := by
  rcases h with ⟨c, hc, -⟩
  rw [verdict, hc]
  rfl

theorem Tells.iff (h : σ.Tells v w) :
    (v.identical w || σ.verdict v w) = true ↔ σ.Matches v w := by
  rcases h with ⟨c, hc, hiff⟩
  rw [verdict, hc]
  exact hiff

theorem equal_of_list_tells {items others : List Value} (hv : σ.shape v = .list items)
    (hw : σ.shape w = .list others) (h : ∀ a ∈ items, ∀ b ∈ others, σ.Tells a b) :
    ∃ c, σ.equal v w = .ok c ∧ (c = true ↔ σ.Matches v w) := by
  refine ⟨_, equal_of_list hv hw fun a ha b hb => (h a ha b hb).equal_eq, ?_⟩
  rw [matches_of_list_iff hv hw, Bool.and_eq_true, beq_iff_eq, List.all_eq_true]
  refine and_congr_right fun _ => forall₂_congr fun pair hpair => ?_
  rcases List.of_mem_zip hpair with ⟨ha, hb⟩
  exact (h pair.1 ha pair.2 hb).iff

theorem equal_of_map_tells {entries others : Entries Value} (hv : σ.shape v = .map entries)
    (hw : σ.shape w = .map others) (hentries : entries.Distinct) (hothers : others.Distinct)
    (h : ∀ a ∈ entries.map (·.2), ∀ b ∈ others.map (·.2), σ.Tells a b) :
    ∃ c, σ.equal v w = .ok c ∧ (c = true ↔ σ.Matches v w) := by
  refine ⟨_, equal_of_map hv hw fun a ha b hb => (h a ha b hb).equal_eq, ?_⟩
  rw [matches_of_map_iff hv hw hentries hothers, Bool.and_eq_true, beq_iff_eq, List.all_eq_true]
  refine and_congr_right fun _ => forall₂_congr fun entry hentry => ?_
  rw [Option.any_eq_true]
  refine exists_congr fun b => and_congr_right fun hb => ?_
  exact (h entry.2 (List.mem_map_of_mem hentry) b (mem_values_of_get? hb)).iff

theorem equal_of_inside_tells (hv : σ.IsKept v) (hw : σ.IsKept w) (hcontainer : σ.shape v ≠ .plain)
    (h : ∀ a ∈ σ.inside v, ∀ b ∈ σ.inside w, σ.Tells a b) :
    ∃ c, σ.equal v w = .ok c ∧ (c = true ↔ σ.Matches v w) := by
  by_cases hkind : (σ.shape v).SameKind (σ.shape w)
  · rw [inside, inside] at h
    cases hshape : σ.shape v <;> cases hother : σ.shape w <;> rw [hshape, hother] at hkind h
    case list.list => exact equal_of_list_tells hshape hother h
    case map.map =>
      exact equal_of_map_tells hshape hother (hv.distinct v _ .refl hshape)
        (hw.distinct w _ .refl hother) h
    case plain.plain => exact absurd hshape hcontainer
    all_goals exact hkind.elim
  · refine ⟨false, equal_of_unlike hv.placeless hkind, Bool.false_ne_true.elim, fun hmatches => ?_⟩
    rcases (matches_iff.mp hmatches).1.cases_shape with
      ⟨_, _, hshape, hother, -⟩ | ⟨_, _, hshape, hother, -⟩ | ⟨hshape, hother, -⟩
    all_goals exact absurd (by rw [hshape, hother]; trivial) hkind

theorem tells_of_plain (hv : σ.IsKept v) (hw : σ.IsKept w) (hshape : σ.shape v = .plain) :
    σ.Tells v w := by
  refine ⟨_, equal_of_plain hshape (hv.placeless hshape) w, ?_⟩
  constructor
  · intro h
    rcases Bool.or_eq_true_iff.mp h with hself | hequal
    · cases Value.eq_of_identical hself
      exact matches_self hv
    · rcases Value.plainEqual_iff.mp hequal with hleaf | hcoerced
      · exact (matches_of_plain_iff hshape (plain_of_sameLeaf hleaf).2).mpr (.leaf hleaf)
      · exact (matches_of_plain_iff hshape (plain_of_coerced hcoerced).2).mpr (.coerced hcoerced)
  · intro h
    rcases (matches_iff.mp h).1.cases_shape with
      ⟨_, _, hother, -⟩ | ⟨_, _, hother, -⟩ | ⟨-, -, hleaf | hcoerced | ⟨mark, rfl, rfl⟩⟩
    · cases hshape.symm.trans hother
    · cases hshape.symm.trans hother
    · rw [Value.plainEqual_iff.mpr (.inl hleaf), Bool.or_true]
    · rw [Value.plainEqual_iff.mpr (.inr hcoerced), Bool.or_true]
    · exact Bool.or_eq_true_iff.mpr (.inl (beq_self_eq_true mark))

theorem tells_of_isAcyclic (hacyclic : σ.IsAcyclic v) (hv : σ.IsKept v) (hw : σ.IsKept w) :
    σ.Tells v w := by
  have hacc := isAcyclic_iff_acc.mp hacyclic
  clear hacyclic
  induction hacc generalizing w with
  | intro v _ ih =>
      by_cases hshape : σ.shape v = .plain
      · exact tells_of_plain hv hw hshape
      · rcases equal_of_inside_tells hv hw hshape fun a ha b hb =>
          ih a ha (hv.of_inside ha) (hw.of_inside hb) with ⟨c, hc, hiff⟩
        refine ⟨c, hc, ?_⟩
        rw [Bool.or_eq_true_iff, hiff]
        refine or_iff_right_of_imp fun hself => ?_
        cases Value.eq_of_identical hself
        exact matches_self hv

/-! # Strict equality -/

theorem strictEqual_of_plain_iff (hshape : σ.shape v = .plain) (hplace : v.place? = none) :
    σ.strictEqual v w = .ok true ↔ v.SameLeaf w := by
  constructor
  · intro h
    rw [strictEqual_def] at h
    split_ifs at h with hv hw hnull hnull' hbool hnumber
    · cases v <;> cases hv
      cases w <;> cases h
      exact .undefined
    · cases h
    · have hw' := Value.eq_of_isNullish (Except.ok.inj h)
      rcases Value.eq_of_isNullish hnull with rfl | rfl
      · exact absurd rfl hv
      · rcases hw' with rfl | rfl
        · exact absurd rfl hw
        · exact .null
    · cases h
    · cases h
    · cases h
    · rw [equal_of_plain hshape hplace] at h
      rcases Value.plainEqual_iff.mp (Except.ok.inj h) with hleaf | hcoerced
      · exact hleaf
      · cases hcoerced with
        | bool => exact absurd (Value.isBool_ofNumber _) (by simpa [Value.isBool] using hbool)
        | number => exact absurd (Value.isBool_ofNumber _) (by simpa [Value.isBool] using hbool)
  · intro h
    have hequal : v.isNullish = false → σ.equal v w = .ok true := fun _ => by
      rw [equal_of_plain hshape hplace, Value.plainEqual_iff.mpr (.inl h)]
    cases h with
    | undefined => rfl
    | null => rfl
    | @number x y h => cases x <;> cases y <;> exact hequal rfl
    | _ => exact hequal rfl

theorem strictEqual_of_containers (hv : σ.shape v ≠ .plain) (hw : σ.shape w ≠ .plain) :
    σ.strictEqual v w = σ.equal v w := by
  have hplain : ∀ u, σ.shape u ≠ .plain →
      u.isUndefined = false ∧ u.isNullish = false ∧ u.isBool = false ∧ u.number? = none := by
    intro u hu
    cases u <;> first | exact ⟨rfl, rfl, rfl, rfl⟩ | exact absurd rfl hu
  rcases hplain v hv with ⟨hundefined, hnullish, hbool, hnumber⟩
  rcases hplain w hw with ⟨hundefined', hnullish', hbool', hnumber'⟩
  rw [strictEqual_def, hundefined, hundefined', hnullish, hnullish', hbool, hbool', hnumber,
    hnumber']
  rfl

/--
Values are strictly equal exactly if they match at every position, and are the same if they are
leaves themselves. It is enough that there is no cycle in one of them.
-/
theorem strictEqual_iff_matches (hacyclic : σ.IsAcyclic v) (hv : σ.IsKept v) (hw : σ.IsKept w) :
    σ.strictEqual v w = .ok true ↔
      (σ.shape v = .plain → v.SameLeaf w) ∧
        ∀ path, Option.Rel σ.Agrees (σ.at? v path) (σ.at? w path) := by
  by_cases hshape : σ.shape v = .plain
  · rw [strictEqual_of_plain_iff hshape (hv.placeless hshape)]
    constructor
    · intro h
      exact ⟨fun _ => h, (matches_of_plain_iff hshape (plain_of_sameLeaf h).2).mpr (.leaf h)⟩
    · intro h
      exact h.1 hshape
  · have htells : ∀ a ∈ σ.inside v, ∀ b ∈ σ.inside w, σ.Tells a b := fun a ha b hb =>
      tells_of_isAcyclic (isAcyclic_iff_acc.mpr ((isAcyclic_iff_acc.mp hacyclic).inv ha))
        (hv.of_inside ha) (hw.of_inside hb)
    rcases equal_of_inside_tells hv hw hshape htells with ⟨c, hc, hiff⟩
    constructor
    · intro h
      refine ⟨fun hplain => absurd hplain hshape, hiff.mp ?_⟩
      rcases strictEqual_true_cases h with ⟨hnullish, -⟩ | ⟨-, -, -, -, hequal⟩
      · rcases Value.eq_of_isNullish hnullish with rfl | rfl <;> exact absurd rfl hshape
      · exact Except.ok.inj (hc.symm.trans hequal)
    · rintro ⟨-, hmatches⟩
      have hother : σ.shape w ≠ .plain := by
        intro hother
        rcases (matches_iff.mp hmatches).1.cases_shape with
          ⟨_, _, -, hw', -⟩ | ⟨_, _, -, hw', -⟩ | ⟨hv', -⟩
        · cases hother.symm.trans hw'
        · cases hother.symm.trans hw'
        · exact hshape hv'
      rw [strictEqual_of_containers hshape hother, hc, hiff.mpr hmatches]

theorem strictEqual_iff_matches_shared :
    let σ : Store := { Store.ofData [] [] with shared := #[.list [.int 1]] }
    let v : Value := .map [(.str "a", .shared 0)]
    let w : Value := .map [(.str "a", .list [.bool true])]
    σ.IsAcyclic v ∧ σ.IsKept v ∧ σ.IsKept w ∧ σ.strictEqual v w = .ok true ∧
      ∀ path, Option.Rel σ.Agrees (σ.at? v path) (σ.at? w path) := by
  intro σ v w
  have hv : ∀ u ∈ σ.inside v, u = .shared 0 := by
    simp [v, inside, shape]
  have hw : ∀ u ∈ σ.inside w, u = .list [.bool true] := by
    simp [w, inside, shape]
  have hshared : ∀ u ∈ σ.inside (.shared 0), u = .int 1 := by
    simp [σ, inside, shape]
  have hlist : ∀ u ∈ σ.inside (.list [.bool true]), u = .bool true := by
    simp [inside, shape]
  have hacyclic : σ.IsAcyclic v := by
    refine isAcyclic_of_inside fun u hu => ?_
    rw [hv u hu]
    refine isAcyclic_of_inside fun u hu => ?_
    rw [hshared u hu]
    exact isAcyclic_of_plain rfl
  have hkept : σ.IsKept v := by
    refine isKept_of_inside (by rintro _ ⟨⟩; exact List.pairwise_singleton _ _) (by simp [v])
      fun u hu => ?_
    rw [hv u hu]
    refine isKept_of_inside (by rintro _ ⟨⟩) (by rintro _ ⟨⟩; decide) fun u hu => ?_
    rw [hshared u hu]
    exact isKept_of_plain rfl rfl
  have hkept' : σ.IsKept w := by
    refine isKept_of_inside (by rintro _ ⟨⟩; exact List.pairwise_singleton _ _) (by simp [w])
      fun u hu => ?_
    rw [hw u hu]
    refine isKept_of_inside (by rintro _ ⟨⟩) (by simp) fun u hu => ?_
    rw [hlist u hu]
    exact isKept_of_plain rfl rfl
  have hstrict : σ.strictEqual v w = .ok true := rfl
  exact ⟨hacyclic, hkept, hkept', hstrict,
    ((strictEqual_iff_matches hacyclic hkept hkept').mp hstrict).2⟩

/-- Lists are strictly equal where one holds a boolean and the other the number it counts as. -/
theorem coerced_inside :
    let σ := Store.ofData [] []
    let v : Value := .list [.bool true]
    let w : Value := .list [.int 1]
    σ.IsAcyclic v ∧ σ.strictEqual v w = .ok true ∧
      σ.at? v [.item 0] = some (.bool true) ∧ σ.at? w [.item 0] = some (.int 1) ∧
      σ.strictEqual (.bool true) (.int 1) = .ok false := by
  intro σ v w
  refine ⟨isAcyclic_of_inside fun u hu => ?_, rfl, rfl, rfl, rfl⟩
  have hu' : u = .bool true := by
    simpa [v, inside, shape] using hu
  rw [hu']
  exact isAcyclic_of_plain rfl

end Store
end Stencil
