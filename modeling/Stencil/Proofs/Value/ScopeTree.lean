import Stencil.Proofs.Value.Bindings

/-!
# Scopes as nested environments

A tree of scopes grows step by step: a scope is opened inside another, or a value is bound in one.
What a key means in a scope can be told from the history of these steps alone: it is the value
that was last written there, or else what the key means in the scope around it by now, or else
what the data of the caller has for it. The store gives the same answers.
-/

namespace Stencil

/-! # Histories -/

inductive ScopeStep where
  /-- Opens a scope inside another, with bindings of its own and what `this` means there. -/
  | child (around : Nat) (bindings : Entries Value) (receiver : Option Value)
  | bind (scope : Nat) (key : Key) (value : Value)

namespace ScopeStep

def about : ScopeStep → Nat
  | child around _ _ => around
  | bind scope _ _ => scope

/-- What a step opens: the scope around the new one, and its first bindings. -/
def opening? : ScopeStep → Option (Nat × Entries Value)
  | child around bindings _ => some (around, bindings)
  | bind _ _ _ => none

def write? (scope : Nat) : ScopeStep → Option (Key × Value)
  | child _ _ _ => none
  | bind place key value => if place = scope then some (key, value) else none

def perform (σ : Store) : ScopeStep → Store
  | child around bindings receiver => (σ.child around bindings receiver).2
  | bind scope key value => σ.bind scope key value

variable (history : List ScopeStep)

/-- What has been opened, in order. The root was there before. -/
def openings : List (Nat × Entries Value) :=
  history.filterMap opening?

def count : Nat :=
  (openings history).length + 1

def origin? : Nat → Option (Nat × Entries Value)
  | 0 => none
  | n + 1 => (openings history)[n]?

def around? (scope : Nat) : Option Nat :=
  (origin? history scope).map (·.1)

def given (scope : Nat) : Entries Value :=
  ((origin? history scope).map (·.2)).getD []

def writes (scope : Nat) : Entries Value :=
  given history scope ++ history.filterMap (write? scope)

/-- Histories in which every step starts from a scope that is there by then. -/
inductive IsOrderly : List ScopeStep → Prop
  | nil : IsOrderly []
  | concat {history : List ScopeStep} {step : ScopeStep} (h : IsOrderly history)
      (hstep : step.about < count history) : IsOrderly (history ++ [step])

/-! # What a history says -/

/-- What a key means in a scope, if it is bound. -/
inductive Means (data : Entries Value) (key : Key) : Nat → Value → Prop
  | own {scope : Nat} {value : Value} (h : (writes history scope).latest? key = some value) :
      Means data key scope value
  | around {scope outer : Nat} {value : Value} (h : (writes history scope).latest? key = none)
      (hout : around? history scope = some outer) (hmeans : Means data key outer value) :
      Means data key scope value
  | data {value : Value} (h : (writes history 0).latest? key = none)
      (hdata : data.get? key = some value) : Means data key 0 value

/-- What is read under a key: what it means, or else the helper of that name, or else undefined. -/
inductive ReadsAs (data : Entries Value) (helpers : List (String × Value)) (key : Key)
    (scope : Nat) : Value → Prop
  | bound {value : Value} (h : Means history data key scope value) :
      ReadsAs data helpers key scope value
  | helper {name : String} {value : Value} (hfree : ∀ v, ¬ Means history data key scope v)
      (hkey : key = .str name) (h : helpers.lookup name = some value) :
      ReadsAs data helpers key scope value
  | nothing (hfree : ∀ v, ¬ Means history data key scope v)
      (h : ∀ name : String, key = .str name → helpers.lookup name = none) :
      ReadsAs data helpers key scope .undefined

inductive Within (outer : Nat) : Nat → Prop
  | self : Within outer outer
  | inside {scope around : Nat} (hout : around? history scope = some around)
      (h : Within outer around) : Within outer scope

/-! # One step more -/

section Concat

variable (around scope place : Nat) (bindings : Entries Value) (receiver : Option Value)
  (key : Key) (value : Value)

theorem openings_child :
    openings (history ++ [.child around bindings receiver]) =
      openings history ++ [(around, bindings)] := by
  rw [openings, List.filterMap_append]
  rfl

theorem openings_bind : openings (history ++ [.bind scope key value]) = openings history := by
  rw [openings, List.filterMap_append]
  exact List.append_nil _

theorem count_child :
    count (history ++ [.child around bindings receiver]) = count history + 1 := by
  rw [count, openings_child, List.length_append]
  rfl

theorem count_bind : count (history ++ [.bind scope key value]) = count history := by
  rw [count, openings_bind]
  rfl

theorem origin?_child :
    origin? (history ++ [.child around bindings receiver]) scope =
      if scope = count history then some (around, bindings) else origin? history scope := by
  cases scope with
  | zero => exact (if_neg (Nat.succ_ne_zero _).symm).symm
  | succ n =>
      simp only [origin?, openings_child, count, Nat.add_right_cancel_iff, List.getElem?_append,
        List.getElem?_singleton]
      grind

theorem origin?_bind :
    origin? (history ++ [.bind place key value]) scope = origin? history scope := by
  cases scope with
  | zero => rfl
  | succ n => rw [origin?, origin?, openings_bind]

theorem around?_child :
    around? (history ++ [.child around bindings receiver]) scope =
      if scope = count history then some around else around? history scope := by
  rw [around?, around?, origin?_child]
  split <;> rfl

theorem around?_bind :
    around? (history ++ [.bind place key value]) scope = around? history scope := by
  rw [around?, around?, origin?_bind]

theorem writes_bind :
    writes (history ++ [.bind place key value]) scope =
      writes history scope ++ if place = scope then [(key, value)] else [] := by
  rw [writes, writes, given, given, origin?_bind, List.filterMap_append, ← List.append_assoc]
  by_cases h : place = scope <;> simp [write?, h]

end Concat

/-! # Scopes that are not there yet -/

variable {history}

theorem origin?_of_count_le {scope : Nat} (h : count history ≤ scope) :
    origin? history scope = none := by
  cases scope with
  | zero => rfl
  | succ n => exact List.getElem?_eq_none (Nat.le_of_succ_le_succ h)

theorem IsOrderly.writes_of_count_le (h : IsOrderly history) {scope : Nat}
    (hscope : count history ≤ scope) : writes history scope = [] := by
  rw [writes, given, origin?_of_count_le hscope]
  induction h with
  | nil => rfl
  | @concat history step horderly hstep ih =>
      cases step with
      | child around bindings receiver =>
          rw [count_child] at hscope
          have hbefore := ih (Nat.le_of_succ_le hscope)
          rw [List.filterMap_append]
          simpa [write?] using hbefore
      | bind place key value =>
          rw [count_bind] at hscope
          have hbefore := ih hscope
          have hother : place ≠ scope := Nat.ne_of_lt (Nat.lt_of_lt_of_le hstep hscope)
          rw [List.filterMap_append]
          simpa [write?, hother] using hbefore

theorem IsOrderly.writes_child (h : IsOrderly history) (around scope : Nat)
    (bindings : Entries Value) (receiver : Option Value) :
    writes (history ++ [.child around bindings receiver]) scope =
      if scope = count history then bindings else writes history scope := by
  have hnone : writes history (count history) = [] := h.writes_of_count_le (Nat.le_refl _)
  rw [writes, given, origin?_child, List.filterMap_append]
  split
  · next hlast =>
      subst hlast
      rw [writes, List.append_eq_nil_iff] at hnone
      rw [hnone.2]
      exact List.append_nil _
  · next =>
      rw [writes, given]
      simp [write?]

/-! # Meanings scope by scope -/

theorem means_inside {data : Entries Value} {key : Key} {scope outer : Nat} {value : Value}
    (hout : around? history scope = some outer) :
    Means history data key scope value ↔
      (writes history scope).latest? key = some value ∨
        (writes history scope).latest? key = none ∧ Means history data key outer value := by
  constructor
  · rintro (hown | ⟨hown, hother, hmeans⟩ | _)
    · exact .inl hown
    · cases hout.symm.trans hother
      exact .inr ⟨hown, hmeans⟩
    · cases hout
  · rintro (hown | ⟨hown, hmeans⟩)
    · exact .own hown
    · exact .around hown hout hmeans

theorem means_root {data : Entries Value} {key : Key} {value : Value} :
    Means history data key 0 value ↔
      (writes history 0).latest? key = some value ∨
        (writes history 0).latest? key = none ∧ data.get? key = some value := by
  constructor
  · rintro (hown | ⟨_, hout, _⟩ | ⟨hown, hdata⟩)
    · exact .inl hown
    · cases hout
    · exact .inr ⟨hown, hdata⟩
  · rintro (hown | ⟨hown, hdata⟩)
    · exact .own hown
    · exact .data hown hdata

theorem within_inside {scope around place : Nat} (hout : around? history scope = some around) :
    Within history place scope ↔ place = scope ∨ Within history place around := by
  constructor
  · rintro (_ | ⟨hother, h⟩)
    · exact .inl rfl
    · cases hout.symm.trans hother
      exact .inr h
  · rintro (rfl | h)
    · exact .self
    · exact .inside hout h

theorem within_root {place : Nat} : Within history place 0 ↔ place = 0 := by
  constructor
  · rintro (_ | ⟨hout, _⟩)
    · rfl
    · cases hout
  · rintro rfl
    exact .self

end ScopeStep

/-! # Stores with a history -/

namespace Store

open ScopeStep

def ofHistory (data : Entries Value) (helpers : List (String × Value))
    (history : List ScopeStep) : Store :=
  history.foldl ScopeStep.perform (ofData data helpers)

structure Records (data : Entries Value) (helpers : List (String × Value))
    (history : List ScopeStep) (σ : Store) : Prop where
  data : σ.data = data
  helpers : σ.helpers = helpers
  size : σ.scopes.size = count history
  own : ∀ scope, σ.own scope = Entries.ofPairs (writes history scope)
  root : σ.outer 0 = []
  outer : ∀ scope around, around? history scope = some around →
    around < scope ∧ σ.outer scope = σ.path around
  /-- Each scope but the root is inside another. -/
  rooted : ∀ scope < count history, scope ≠ 0 → ∃ around, around? history scope = some around

variable {data : Entries Value} {helpers : List (String × Value)} {history : List ScopeStep}
  {σ : Store}

theorem records_ofData : (ofData data helpers).Records data helpers [] where
  data := rfl
  helpers := rfl
  size := rfl
  own scope := by
    cases scope <;> rfl
  root := rfl
  outer scope around h := by
    cases scope <;> cases h
  rooted scope hscope hne := absurd (Nat.lt_one_iff.mp hscope) hne

theorem Records.child (h : σ.Records data helpers history) (horderly : IsOrderly history)
    {around : Nat} (haround : around < count history) (bindings : Entries Value)
    (receiver : Option Value) :
    (σ.child around bindings receiver).2.Records data helpers
      (history ++ [.child around bindings receiver]) where
  data := h.data
  helpers := h.helpers
  size := by
    rw [count_child, ← h.size]
    exact Array.size_push _
  own scope := by
    rw [own_child, horderly.writes_child, h.size, h.own]
    split <;> rfl
  root := by
    have hroot : 0 ≠ count history := (Nat.succ_ne_zero _).symm
    rw [outer_child, h.size, if_neg hroot, h.root]
  outer scope place hout := by
    rw [around?_child] at hout
    have hpath : ∀ p < count history,
        (σ.child around bindings receiver).2.path p = σ.path p := by
      intro p hp
      rw [path, path, outer_child, h.size, if_neg (Nat.ne_of_lt hp)]
    rw [outer_child, h.size]
    split at hout
    · next hlast =>
        cases hout
        rw [if_pos hlast, hpath _ haround, hlast]
        exact ⟨haround, rfl⟩
    · next hold =>
        rcases h.outer scope place hout with ⟨hplace, houter⟩
        have hscope : scope < count history := by
          by_contra hlate
          rw [around?, origin?_of_count_le (Nat.le_of_not_lt hlate)] at hout
          cases hout
        rw [if_neg hold, hpath _ (Nat.lt_trans hplace hscope)]
        exact ⟨hplace, houter⟩
  rooted scope hscope hne := by
    rw [count_child] at hscope
    rw [around?_child]
    split
    · exact ⟨around, rfl⟩
    · next hold => exact h.rooted scope (by omega) hne

theorem Records.bind (h : σ.Records data helpers history) {place : Nat}
    (hplace : place < count history) (key : Key) (value : Value) :
    (σ.bind place key value).Records data helpers (history ++ [.bind place key value]) where
  data := h.data
  helpers := h.helpers
  size := by
    rw [count_bind, ← h.size]
    exact Array.size_modify
  own scope := by
    rw [writes_bind]
    by_cases hsame : place = scope
    · subst hsame
      rw [if_pos rfl, own_bind_self σ key value (h.size ▸ hplace), h.own,
        Entries.ofPairs_concat_entry]
    · rw [if_neg hsame, List.append_nil, own_bind_of_ne σ key value hsame, h.own]
  root := (outer_bind σ key value).trans h.root
  outer scope around hout := by
    rw [around?_bind] at hout
    rw [outer_bind, path_bind]
    exact h.outer scope around hout
  rooted scope hscope hne := by
    rw [count_bind] at hscope
    rw [around?_bind]
    exact h.rooted scope hscope hne

theorem Records.perform (h : σ.Records data helpers history) (horderly : IsOrderly history)
    {step : ScopeStep} (hstep : step.about < count history) :
    (step.perform σ).Records data helpers (history ++ [step]) := by
  cases step with
  | child around bindings receiver => exact h.child horderly hstep bindings receiver
  | bind scope key value => exact h.bind hstep key value

theorem records_ofHistory (h : IsOrderly history) :
    (ofHistory data helpers history).Records data helpers history := by
  induction h with
  | nil => exact records_ofData
  | concat horderly hstep ih =>
      rw [ofHistory, List.foldl_append]
      exact ih.perform horderly hstep

/-! # What is read -/

theorem helper?_eq_lookup (σ : Store) (name : String) : σ.helper? name = σ.helpers.lookup name := by
  rw [helper?]
  induction σ.helpers with
  | nil => rfl
  | cons entry rest ih =>
      rw [List.find?_cons, List.lookup_cons, BEq.comm, ← ih]
      cases name == entry.1 <;> rfl

section Lookup

variable {scope : Nat} {key : Key}

theorem lookupKey_string (name : String) : σ.lookupKey scope (.str name) = σ.lookup scope name := by
  rw [lookupKey, Text.string?_ofString]

theorem lookupKey_of_bound {value : Value} (h : σ.bound? scope key = some value) :
    σ.lookupKey scope key = value := by
  unfold lookupKey
  split
  · split
    · next name hname =>
        rw [Text.ofString_of_string? hname] at h
        rw [lookup, h]
    · rw [h]
      rfl
  · rw [h]
    rfl

theorem lookupKey_of_free {name : String} (h : σ.bound? scope (.str name) = none) :
    σ.lookupKey scope (.str name) = (σ.helpers.lookup name).getD .undefined := by
  rw [lookupKey_string, lookup, h, helper?_eq_lookup]

theorem lookupKey_of_nameless (h : σ.bound? scope key = none)
    (hkey : ∀ name : String, key ≠ .str name) : σ.lookupKey scope key = .undefined := by
  unfold lookupKey
  split
  · split
    · next name hname =>
        exact absurd (congrArg Key.str (Text.ofString_of_string? hname)) (hkey name)
    · rw [h]
      rfl
  · rw [h]
    rfl

end Lookup

namespace Records

variable (h : σ.Records data helpers history)

include h

theorem isKeyed (hdata : data.Distinct) : σ.IsKeyed where
  data := h.data ▸ hdata
  own scope := by
    rw [h.own]
    exact Entries.distinct_ofPairs _

theorem bound?_iff {scope : Nat} (hscope : scope < count history) (key : Key) (value : Value) :
    σ.bound? scope key = some value ↔ Means history data key scope value := by
  induction scope using Nat.strongRecOn with
  | ind scope ih =>
      have hown : (σ.own scope).get? key = (writes history scope).latest? key := by
        rw [h.own, Entries.get?_ofPairs]
      by_cases hroot : scope = 0
      · subst hroot
        rw [means_root, bound?, path, h.root, h.data, List.findSome?_singleton, hown]
        cases (writes history 0).latest? key <;> simp
      · rcases h.rooted scope hscope hroot with ⟨around, hout⟩
        rcases h.outer scope around hout with ⟨haround, houter⟩
        have hpath : σ.path scope = [scope] ++ σ.path around := by
          rw [path, houter]
          rfl
        rw [means_inside hout, ← ih around haround (Nat.lt_trans haround hscope),
          bound?_of_path σ hpath, List.findSome?_singleton, hown]
        cases (writes history scope).latest? key <;> simp

theorem bound?_eq_none_iff {scope : Nat} (hscope : scope < count history) (key : Key) :
    σ.bound? scope key = none ↔ ∀ value, ¬ Means history data key scope value := by
  rw [Option.eq_none_iff_forall_ne_some]
  exact forall_congr' fun value => not_congr (h.bound?_iff hscope key value)

theorem mem_path_iff {scope place : Nat} (hscope : scope < count history) :
    place ∈ σ.path scope ↔ Within history place scope := by
  induction scope using Nat.strongRecOn with
  | ind scope ih =>
      by_cases hroot : scope = 0
      · subst hroot
        rw [within_root, path, h.root, List.mem_singleton]
      · rcases h.rooted scope hscope hroot with ⟨around, hout⟩
        rcases h.outer scope around hout with ⟨haround, houter⟩
        rw [within_inside hout, ← ih around haround (Nat.lt_trans haround hscope), path, houter,
          List.mem_cons]

theorem lookupKey_iff {scope : Nat} (hscope : scope < count history) (key : Key) (value : Value) :
    σ.lookupKey scope key = value ↔ ReadsAs history data helpers key scope value := by
  constructor
  · rintro rfl
    cases hbound : σ.bound? scope key with
    | some v =>
        rw [lookupKey_of_bound hbound]
        exact .bound ((h.bound?_iff hscope key v).mp hbound)
    | none =>
        have hfree := (h.bound?_eq_none_iff hscope key).mp hbound
        by_cases hname : ∃ name : String, key = .str name
        · rcases hname with ⟨name, rfl⟩
          rw [lookupKey_of_free hbound, h.helpers]
          cases hhelper : helpers.lookup name with
          | some helper => exact .helper hfree rfl hhelper
          | none =>
              refine .nothing hfree fun other hother => ?_
              rw [← hhelper, Key.str_eq_iff.mp hother]
        · rw [lookupKey_of_nameless hbound fun name hkey => hname ⟨name, hkey⟩]
          exact .nothing hfree fun name hkey => absurd ⟨name, hkey⟩ hname
  · rintro (hmeans | ⟨hfree, rfl, hhelper⟩ | ⟨hfree, hnone⟩)
    · exact lookupKey_of_bound ((h.bound?_iff hscope key value).mpr hmeans)
    · rw [lookupKey_of_free ((h.bound?_eq_none_iff hscope _).mpr hfree), h.helpers, hhelper]
      rfl
    · have hbound := (h.bound?_eq_none_iff hscope key).mpr hfree
      by_cases hname : ∃ name : String, key = .str name
      · rcases hname with ⟨name, rfl⟩
        rw [lookupKey_of_free hbound, h.helpers, hnone name rfl]
        rfl
      · exact lookupKey_of_nameless hbound fun name hkey => hname ⟨name, hkey⟩

end Records

/--
How a scope reads as a mapping of the keys that mean something in it: each of them is there with
its value, is a member, and is counted once.
-/
structure Lists (σ : Store) (scope : Nat) (means : Key → Value → Prop) : Prop where
  entry : ∀ key value, (σ.bindings scope).get? key = some value ↔ means key value
  member : ∀ key, (σ.bindings scope).has key = true ↔ ∃ value, means key value
  keys : ∀ key,
    (∃ name ∈ (σ.bindings scope).keys, name.same key = true) ↔ ∃ value, means key value
  once : (σ.bindings scope).keys.Pairwise fun a b => a.same b = false
  length : ∀ names : List Key, (names.Pairwise fun a b => a.same b = false) →
    (∀ key, (∃ name ∈ names, name.same key = true) ↔ ∃ value, means key value) →
    (σ.bindings scope).length = names.length

theorem Records.lists (h : σ.Records data helpers history) (hdata : data.Distinct) {scope : Nat}
    (hscope : scope < count history) :
    σ.Lists scope fun key => Means history data key scope := by
  have hentry : ∀ key value, (σ.bindings scope).get? key = some value ↔
      Means history data key scope value := by
    intro key value
    rw [(h.isKeyed hdata).get?_bindings, h.bound?_iff hscope]
  have hmember : ∀ key, (σ.bindings scope).has key = true ↔
      ∃ value, Means history data key scope value := by
    intro key
    rw [Entries.has_iff, Option.isSome_iff_exists]
    exact exists_congr (hentry key)
  have hkeys : ∀ key, (∃ name ∈ (σ.bindings scope).keys, name.same key = true) ↔
      ∃ value, Means history data key scope value := by
    intro key
    rw [← hmember, Entries.has, List.any_eq_true, Entries.keys]
    simp
  have honce : (σ.bindings scope).keys.Pairwise fun a b => a.same b = false :=
    List.pairwise_map.mpr (σ.distinct_bindings scope)
  refine ⟨hentry, hmember, hkeys, honce, fun names hnames hall => ?_⟩
  have hsame : (σ.bindings scope).keys.length = names.length := by
    apply Nat.le_antisymm
    · refine Key.length_le_of_covers honce fun name hname => ?_
      exact (hall name).mpr ((hkeys name).mp ⟨name, hname, Key.same_refl name⟩)
    · refine Key.length_le_of_covers hnames fun name hname => ?_
      exact (hkeys name).mpr ((hall name).mp ⟨name, hname, Key.same_refl name⟩)
  rwa [Entries.keys, List.length_map] at hsame

theorem lookupKey_bind_of_not_mem {scope place : Nat} (h : place ∉ σ.path scope) (key : Key)
    (value : Value) (other : Key) :
    (σ.bind place key value).lookupKey scope other = σ.lookupKey scope other := by
  unfold lookupKey lookup
  simp only [bound?_bind_of_not_mem σ key value h]
  rfl

/--
A tree of scopes reads as nested environments: after any history, a key means in a scope what was
last written there, or else what it means around that scope by now, or else what the data has for
it; names that mean nothing are looked up among the helpers. As a mapping, a scope has the keys
that mean something, and each of them once. What is bound in a scope changes nothing in scopes
that are neither that one nor inside it, and no step changes the data.
-/
theorem scopes_nest (data : Entries Value) (hdata : data.Distinct)
    (helpers : List (String × Value)) (history : List ScopeStep) (h : IsOrderly history) :
    (ofHistory data helpers history).data = data ∧
    (∀ scope < count history,
      (∀ (name : String) value,
        (ofHistory data helpers history).lookup scope name = value ↔
          ReadsAs history data helpers (.str name) scope value) ∧
      (∀ key value,
        (ofHistory data helpers history).lookupKey scope key = value ↔
          ReadsAs history data helpers key scope value) ∧
      (ofHistory data helpers history).Lists scope fun key => Means history data key scope) ∧
    ∀ place other, other < count history → ¬ Within history place other →
      ∀ key value,
        (∀ k, (ofHistory data helpers (history ++ [.bind place key value])).lookupKey other k =
          (ofHistory data helpers history).lookupKey other k) ∧
        (ofHistory data helpers (history ++ [.bind place key value])).bindings other =
          (ofHistory data helpers history).bindings other := by
  have hrecords : (ofHistory data helpers history).Records data helpers history :=
    records_ofHistory h
  refine ⟨hrecords.data, ?_, ?_⟩
  · intro scope hscope
    refine ⟨fun name value => ?_, hrecords.lookupKey_iff hscope, hrecords.lists hdata hscope⟩
    rw [← lookupKey_string, hrecords.lookupKey_iff hscope]
  · intro place other hother hapart key value
    rw [← hrecords.mem_path_iff hother] at hapart
    have hlonger : ofHistory data helpers (history ++ [.bind place key value]) =
        (ofHistory data helpers history).bind place key value := by
      rw [ofHistory, List.foldl_append]
      rfl
    rw [hlonger]
    exact ⟨lookupKey_bind_of_not_mem hapart key value, bindings_bind_of_not_mem _ key value hapart⟩

/-- A binding that comes late in the root shows through a scope that was opened before. -/
theorem scopes_nest_late :
    (ofHistory [(.str "a", .int 1)] [] [.child 0 [(.str "b", .int 2)] none,
      .bind 0 (.str "a") (.int 9), .bind 1 (.str "b") (.int 3)]).lookup 1 "a" = .int 9 ∧
    (ofHistory [(.str "a", .int 1)] [] [.child 0 [(.str "b", .int 2)] none,
      .bind 0 (.str "a") (.int 9), .bind 1 (.str "b") (.int 3)]).lookup 1 "b" = .int 3 := by
  have h := scopes_nest [(.str "a", .int 1)] (List.pairwise_singleton _ _) []
    ([] ++ [.child 0 [(.str "b", .int 2)] none] ++ [.bind 0 (.str "a") (.int 9)] ++
      [.bind 1 (.str "b") (.int 3)])
    (.concat (.concat (.concat .nil (by decide)) (by decide)) (by decide))
  have hreads := (h.2.1 1 (by decide)).1
  refine ⟨(hreads "a" _).mpr (.bound ?_), (hreads "b" _).mpr (.bound (.own rfl))⟩
  exact .around rfl rfl (.own rfl)

end Store
end Stencil
