import Stencil.Proofs.Renaming.Embedding
import Stencil.Proofs.Value.Bindings

/-!
# Flattened stores

A store is flattened when a scope that stands inside others is replaced by one that stands by
itself and holds all that was seen there. From that scope on, inwards, nothing shows which of the
two it is: what is bound or opened there is bound or opened on both sides. The scopes further out
are left alone, whether the flat store has them or not.
-/

namespace Stencil

variable {ρ : Renaming} {floor : Nat}

namespace Store

structure Shows (ρ : Renaming) (e : Extent) (σ τ : Store) (place other : Nat) : Prop where
  bound? : ∀ k l : Key, l = k.rename ρ →
    Option.Rel (Value.Renamed ρ e) (σ.bound? place k) (τ.bound? other l)
  bindings : Entries.Renamed ρ e (σ.bindings place) (τ.bindings other)

section Shows

variable {e f : Extent} {σ τ : Store} {place other : Nat} (h : Shows ρ e σ τ place other)

include h

theorem Shows.mono (hwithin : e.Within f) : Shows ρ f σ τ place other where
  bound? k l hkey := rel_imp (fun _ _ hv => hv.mono hwithin) (h.bound? k l hkey)
  bindings := h.bindings.mono hwithin

theorem Shows.of_path {inner inner' : Nat} {between : List Nat}
    (hpath : σ.path inner = between ++ σ.path place)
    (hother : τ.path inner' = between.map ρ.place ++ τ.path other)
    (hown : ∀ p ∈ between, Entries.Renamed ρ e (σ.own p) (τ.own (ρ.place p))) :
    Shows ρ e σ τ inner inner' where
  bound? k l hkey := by
    rw [bound?_of_path σ hpath, bound?_of_path τ hother]
    clear hpath hother
    induction between with
    | nil => exact h.bound? k l hkey
    | cons p rest ih =>
        have hhere := (hown p List.mem_cons_self).get? hkey
        rw [List.map_cons, List.findSome?_cons, List.findSome?_cons]
        generalize (σ.own p).get? k = v at hhere ⊢
        generalize (τ.own (ρ.place p)).get? l = w at hhere ⊢
        cases hhere with
        | some hv => exact .some hv
        | none => exact ih fun q hq => hown q (List.mem_cons_of_mem p hq)
  bindings := by
    rw [bindings_of_path σ hpath, bindings_of_path τ hother]
    clear hpath hother
    induction between with
    | nil => exact h.bindings
    | cons p rest ih =>
        exact (ih fun q hq => hown q (List.mem_cons_of_mem p hq)).merge
          (hown p List.mem_cons_self)

end Shows

/-- A scope that is left alone, and shows what the one that answers to it shows. -/
structure Settled (ρ : Renaming) (floor : Nat) (σ τ : Store) (place : Nat) : Prop where
  outer : ∀ p ∈ σ.outer place, p < floor
  outerOther : ∀ p ∈ τ.outer (ρ.place place), p < ρ.place floor
  receiver : Value.Renamed ρ σ.extent (σ.receiver place) (τ.receiver (ρ.place place))
  shows : Shows ρ σ.extent σ τ place (ρ.place place)

structure Inner (ρ : Renaming) (floor : Nat) (σ τ : Store) (place : Nat) : Prop where
  lt : ρ.place place < τ.scopes.size
  receiver : Value.Renamed ρ σ.extent (σ.receiver place) (τ.receiver (ρ.place place))
  own : Entries.Renamed ρ σ.extent (σ.own place) (τ.own (ρ.place place))
  path : ∃ between, σ.path place = between ++ σ.path floor ∧
    τ.path (ρ.place place) = between.map ρ.place ++ τ.path (ρ.place floor) ∧
      ∀ p ∈ between, floor < p ∧ p < σ.scopes.size

/--
Whether a store is another one, flattened from one scope on. That scope is the floor: those in front
of it are settled, and all others stand inside it.
-/
structure Flattens (ρ : Renaming) (floor : Nat) (σ τ : Store) : Prop where
  helpers : List.Forall₂ (fun a b => b.1 = a.1 ∧ Value.Renamed ρ σ.extent a.2 b.2) σ.helpers
    τ.helpers
  shared : List.Forall₂ (Container.Renamed ρ σ.extent) σ.shared.toList τ.shared.toList
  size_le : σ.scopes.size ≤ τ.scopes.size
  place_eq : ∀ i, ρ.place (σ.scopes.size + i) = τ.scopes.size + i
  mark_eq : ∀ i, ρ.mark (σ.nextMark + i) = τ.nextMark + i
  floor_lt : floor < σ.scopes.size
  floorOther_lt : ρ.place floor < τ.scopes.size
  front : ∀ place < floor, ρ.place place < ρ.place floor
  behind : ∀ place, floor < place → ρ.place floor < ρ.place place
  settled : ∀ place ≤ floor, Settled ρ floor σ τ place
  inner : ∀ place < σ.scopes.size, floor < place → Inner ρ floor σ τ place
  distinct : (σ.own floor).Distinct
  distinctOther : (τ.own (ρ.place floor)).Distinct

namespace Flattens

variable {σ τ : Store} (h : σ.Flattens ρ floor τ)

include h

theorem shows {place : Nat} (hplace : place < σ.scopes.size) :
    Shows ρ σ.extent σ τ place (ρ.place place) := by
  rcases Nat.lt_or_ge floor place with hbehind | hfront
  · rcases (h.inner place hplace hbehind).path with ⟨between, hpath, hother, hbetween⟩
    exact (h.settled floor (Nat.le_refl _)).shows.of_path hpath hother fun p hp =>
      (h.inner p (hbetween p hp).2 (hbetween p hp).1).own
  · exact (h.settled place hfront).shows

theorem receiver {place : Nat} (hplace : place < σ.scopes.size) :
    Value.Renamed ρ σ.extent (σ.receiver place) (τ.receiver (ρ.place place)) := by
  rcases Nat.lt_or_ge floor place with hbehind | hfront
  · exact (h.inner place hplace hbehind).receiver
  · exact (h.settled place hfront).receiver

theorem mirrors : σ.Mirrors ρ τ where
  bound? _ hplace := (h.shows hplace).bound?
  bindings _ hplace := (h.shows hplace).bindings
  receiver _ hplace := h.receiver hplace
  helper? := helper?_renamed h.helpers
  shared := h.shared
  size_le := h.size_le
  mark_eq := h.mark_eq

theorem path_lt {place : Nat} (hfront : place ≤ floor) :
    ∀ p ∈ σ.path place, p < σ.scopes.size := by
  intro p hp
  rcases List.mem_cons.mp hp with rfl | houter
  · exact Nat.lt_of_le_of_lt hfront h.floor_lt
  · exact Nat.lt_trans ((h.settled place hfront).outer p houter) h.floor_lt

theorem pathOther_lt {place : Nat} (hfront : place ≤ floor) :
    ∀ p ∈ τ.path (ρ.place place), p < τ.scopes.size := by
  intro p hp
  rcases List.mem_cons.mp hp with rfl | houter
  · rcases Nat.lt_or_eq_of_le hfront with hlt | rfl
    · exact Nat.lt_trans (h.front place hlt) h.floorOther_lt
    · exact h.floorOther_lt
  · exact Nat.lt_trans ((h.settled place hfront).outerOther p houter) h.floorOther_lt

theorem exists_between {place : Nat} (hplace : σ.extent.Opened floor place) :
    ∃ between, σ.path place = between ++ σ.path floor ∧
      τ.path (ρ.place place) = between.map ρ.place ++ τ.path (ρ.place floor) ∧
        ∀ p ∈ between, floor < p ∧ p < σ.scopes.size := by
  rcases Nat.lt_or_eq_of_le hplace.since with hbehind | rfl
  · exact (h.inner place hplace.there hbehind).path
  · exact ⟨[], rfl, rfl, fun _ hp => absurd hp List.not_mem_nil⟩

theorem grow {σ' τ' : Store} (hσ : Frames none σ σ') (hτ : Frames none τ τ')
    (hsize : σ'.scopes.size ≤ τ'.scopes.size)
    (hplaces : ∀ i, ρ.place (σ'.scopes.size + i) = τ'.scopes.size + i)
    (hmarks : ∀ i, ρ.mark (σ'.nextMark + i) = τ'.nextMark + i)
    (hnew : ∀ place < σ'.scopes.size, σ.scopes.size ≤ place → Inner ρ floor σ' τ' place) :
    σ'.Flattens ρ floor τ' := by
  refine ⟨?_, ?_, hsize, hplaces, hmarks, Nat.lt_of_lt_of_le h.floor_lt hσ.size_le,
    Nat.lt_of_lt_of_le h.floorOther_lt hτ.size_le, h.front, h.behind, ?_, ?_, ?_, ?_⟩
  · rw [hσ.helpers, hτ.helpers]
    exact h.helpers.imp fun _ _ hentry => ⟨hentry.1, hentry.2.mono hσ.within⟩
  · rw [hσ.shared, hτ.shared]
    exact h.shared.imp fun _ _ hc => hc.mono hσ.within
  · intro place hfront
    have hsettled := h.settled place hfront
    have hpath := h.path_lt hfront
    have hpathOther := h.pathOther_lt hfront
    have hplace := hpath place List.mem_cons_self
    have hplaceOther := hpathOther _ List.mem_cons_self
    refine ⟨?_, ?_, ?_, ?_, ?_⟩
    · rw [hσ.outer_eq hplace]
      exact hsettled.outer
    · rw [hτ.outer_eq hplaceOther]
      exact hsettled.outerOther
    · rw [hσ.receiver_eq hplace, hτ.receiver_eq hplaceOther]
      exact hsettled.receiver.mono hσ.within
    · intro k l hkey
      rw [hσ.bound?_eq hpath, hτ.bound?_eq hpathOther]
      exact (hsettled.shows.mono hσ.within).bound? k l hkey
    · rw [hσ.bindings_eq hpath, hτ.bindings_eq hpathOther]
      exact (hsettled.shows.mono hσ.within).bindings
  · intro place hplace hbehind
    rcases Nat.lt_or_ge place σ.scopes.size with hold | hopened
    · have hinner := h.inner place hold hbehind
      refine ⟨Nat.lt_of_lt_of_le hinner.lt hτ.size_le, ?_, ?_, ?_⟩
      · rw [hσ.receiver_eq hold, hτ.receiver_eq hinner.lt]
        exact hinner.receiver.mono hσ.within
      · rw [hσ.own_eq hold, hτ.own_eq hinner.lt]
        exact hinner.own.mono hσ.within
      · rw [hσ.path_eq hold, hτ.path_eq hinner.lt, hσ.path_eq h.floor_lt,
          hτ.path_eq h.floorOther_lt]
        rcases hinner.path with ⟨between, hpath, hother, hbetween⟩
        exact ⟨between, hpath, hother, fun p hp =>
          ⟨(hbetween p hp).1, Nat.lt_of_lt_of_le (hbetween p hp).2 hσ.size_le⟩⟩
    · exact hnew place hplace hopened
  · rw [hσ.own_eq h.floor_lt]
    exact h.distinct
  · rw [hτ.own_eq h.floorOther_lt]
    exact h.distinctOther

theorem mark : Flattens ρ floor { σ with nextMark := σ.nextMark + 1 }
    { τ with nextMark := τ.nextMark + 1 } := by
  refine h.grow (.mark σ) (.mark τ) h.size_le h.place_eq (fun i => ?_) fun place hplace hopened =>
    absurd hplace (Nat.not_lt.mpr hopened)
  dsimp only
  rw [Nat.add_assoc, h.mark_eq (1 + i), Nat.add_assoc]

theorem record (call other : Invocation) :
    Flattens ρ floor (σ.record call) (τ.record other) :=
  h.grow (.record σ call) (.record τ other) h.size_le h.place_eq h.mark_eq fun _ hplace hopened =>
    absurd hplace (Nat.not_lt.mpr hopened)

theorem child {place : Nat} (hplace : σ.extent.Opened floor place)
    {bindings others : Entries Value} (hbindings : Entries.Renamed ρ σ.extent bindings others)
    {receiver other : Option Value}
    (hreceiver : Option.Rel (Value.Renamed ρ σ.extent) receiver other) :
    Flattens ρ floor (σ.child place bindings receiver).2
      (τ.child (ρ.place place) others other).2 := by
  have hnew : ρ.place σ.scopes.size = τ.scopes.size := h.place_eq 0
  have hsize : (σ.child place bindings receiver).2.scopes.size = σ.scopes.size + 1 :=
    Array.size_push _
  have hsize' : (τ.child (ρ.place place) others other).2.scopes.size = τ.scopes.size + 1 :=
    Array.size_push _
  have hframes := Frames.child σ place bindings receiver
  have hframes' := Frames.child τ (ρ.place place) others other
  have hlast : (σ.child place bindings receiver).2.scopes[σ.scopes.size]? =
      some ⟨σ.path place, .ofPairs bindings, receiver⟩ := Array.getElem?_push_size
  have hlast' : (τ.child (ρ.place place) others other).2.scopes[τ.scopes.size]? =
      some ⟨τ.path (ρ.place place), .ofPairs others, other⟩ := Array.getElem?_push_size
  refine h.grow hframes hframes' ?_ (fun i => ?_) h.mark_eq fun p hp hopened => ?_
  · rw [hsize, hsize']
    exact Nat.succ_le_succ h.size_le
  · rw [hsize, hsize', Nat.add_assoc, h.place_eq (1 + i), Nat.add_assoc]
  · have hp : p = σ.scopes.size := by omega
    subst hp
    refine ⟨?_, ?_, ?_, ?_⟩
    · rw [hnew, hsize']
      exact Nat.lt_succ_self _
    · rw [hnew, Store.receiver, Store.receiver, hlast, hlast', ← hnew]
      exact rel_getD_renamed (rel_imp (fun _ _ hv => hv.mono hframes.within) hreceiver)
        (.scope hp)
    · rw [hnew, Store.own, Store.own, hlast, hlast']
      exact (hbindings.mono hframes.within).ofPairs
    · have hpath : (σ.child place bindings receiver).2.path σ.scopes.size =
          σ.scopes.size :: σ.path place := by
        rw [Store.path, Store.outer, hlast]
      have hpath' : (τ.child (ρ.place place) others other).2.path τ.scopes.size =
          τ.scopes.size :: τ.path (ρ.place place) := by
        rw [Store.path, Store.outer, hlast']
      rcases h.exists_between hplace with ⟨between, hinner, hother, hbetween⟩
      refine ⟨σ.scopes.size :: between, ?_, ?_, ?_⟩
      · rw [hpath, hframes.path_eq h.floor_lt, hinner]
        rfl
      · rw [hnew, hpath', hframes'.path_eq h.floorOther_lt, hother, List.map_cons, hnew]
        rfl
      · intro q hq
        rcases List.mem_cons.mp hq with rfl | hq
        · exact ⟨h.floor_lt, hp⟩
        · exact ⟨(hbetween q hq).1, Nat.lt_of_lt_of_le (hbetween q hq).2 hframes.size_le⟩

theorem shows_bind_floor (key : Text) {value other : Value}
    (hvalue : Value.Renamed ρ σ.extent value other) :
    Shows ρ σ.extent (σ.bind floor (.str key) value) (τ.bind (ρ.place floor) (.str key) other) floor
      (ρ.place floor) := by
  have hsettled := h.settled floor (Nat.le_refl floor)
  have houter : floor ∉ σ.outer floor := fun hmem => Nat.lt_irrefl _ (hsettled.outer _ hmem)
  have houter' : ρ.place floor ∉ τ.outer (ρ.place floor) := fun hmem =>
    Nat.lt_irrefl _ (hsettled.outerOther _ hmem)
  constructor
  · intro k l hkey
    have hsame : (Key.str key).same l = (Key.str key).same k := by
      rw [hkey]
      exact Key.same_rename ρ (.str key) k
    rw [bound?_bind_self σ _ _ h.floor_lt houter, bound?_bind_self τ _ _ h.floorOther_lt houter',
      hsame]
    split
    · exact .some hvalue
    · exact hsettled.shows.bound? k l hkey
  · rw [bindings_bind_self σ _ _ h.floor_lt houter h.distinct,
      bindings_bind_self τ _ _ h.floorOther_lt houter' h.distinctOther]
    exact hsettled.shows.bindings.put (Key.renamed_str ρ _ key) hvalue

theorem shows_bind_behind {place p : Nat} (hp : p ≤ floor) (hfloor : floor ≤ place)
    (hne : place ≠ p) (key : Key) (value other : Value) :
    Shows ρ σ.extent (σ.bind place key value) (τ.bind (ρ.place place) key other) p (ρ.place p) := by
  have hsettled := h.settled p hp
  have hfloor' : ρ.place floor ≤ ρ.place place := by
    rcases Nat.lt_or_eq_of_le hfloor with hbehind | rfl
    · exact Nat.le_of_lt (h.behind place hbehind)
    · exact Nat.le_refl _
  have hpath : place ∉ σ.path p := by
    intro hmem
    rcases List.mem_cons.mp hmem with rfl | houter
    · exact hne rfl
    · exact Nat.lt_irrefl _ (Nat.lt_of_lt_of_le (hsettled.outer place houter) hfloor)
  have hpath' : ρ.place place ∉ τ.path (ρ.place p) := by
    intro hmem
    rcases List.mem_cons.mp hmem with hsame | houter
    · exact hne (ρ.place_injective _ _ hsame)
    · exact Nat.lt_irrefl _ (Nat.lt_of_lt_of_le (hsettled.outerOther _ houter) hfloor')
  constructor
  · intro k l hkey
    rw [bound?_bind_of_not_mem σ _ _ hpath, bound?_bind_of_not_mem τ _ _ hpath']
    exact hsettled.shows.bound? k l hkey
  · rw [bindings_bind_of_not_mem σ _ _ hpath, bindings_bind_of_not_mem τ _ _ hpath']
    exact hsettled.shows.bindings

section Bind

variable {place p : Nat} (hplace : σ.extent.Opened floor place) (key : Text) {value other : Value}
  (hvalue : Value.Renamed ρ σ.extent value other)

include hplace hvalue

theorem settled_bind (hp : p ≤ floor) :
    Settled ρ floor (σ.bind place (.str key) value)
      (τ.bind (ρ.place place) (.str key) other) p := by
  have hsettled := h.settled p hp
  refine ⟨?_, ?_, ?_, ?_⟩
  · rw [outer_bind]
    exact hsettled.outer
  · rw [outer_bind]
    exact hsettled.outerOther
  · rw [extent_bind, receiver_bind, receiver_bind]
    exact hsettled.receiver
  · rw [extent_bind]
    by_cases hsame : place = p
    · subst hsame
      cases Nat.le_antisymm hp hplace.since
      exact h.shows_bind_floor key hvalue
    · exact h.shows_bind_behind hp hplace.since hsame _ _ _

theorem inner_bind (hp : p < σ.scopes.size) (hbehind : floor < p) :
    Inner ρ floor (σ.bind place (.str key) value) (τ.bind (ρ.place place) (.str key) other) p := by
  have hinner := h.inner p hp hbehind
  have hsize : (σ.bind place (.str key) value).scopes.size = σ.scopes.size := Array.size_modify
  have hsize' : (τ.bind (ρ.place place) (.str key) other).scopes.size = τ.scopes.size :=
    Array.size_modify
  refine ⟨?_, ?_, ?_, ?_⟩
  · rw [hsize']
    exact hinner.lt
  · rw [extent_bind, receiver_bind, receiver_bind]
    exact hinner.receiver
  · rw [extent_bind]
    by_cases hsame : place = p
    · subst hsame
      rw [own_bind_self σ _ _ hplace.there, own_bind_self τ _ _ hinner.lt]
      exact hinner.own.put (Key.renamed_str ρ _ key) hvalue
    · have hsame' : ρ.place place ≠ ρ.place p := fun hplaces =>
        hsame (ρ.place_injective _ _ hplaces)
      rw [own_bind_of_ne σ _ _ hsame, own_bind_of_ne τ _ _ hsame']
      exact hinner.own
  · simp only [path_bind, hsize]
    exact hinner.path

theorem bind :
    Flattens ρ floor (σ.bind place (.str key) value) (τ.bind (ρ.place place) (.str key) other) := by
  have hsize : (σ.bind place (.str key) value).scopes.size = σ.scopes.size := Array.size_modify
  have hsize' : (τ.bind (ρ.place place) (.str key) other).scopes.size = τ.scopes.size :=
    Array.size_modify
  refine ⟨?_, ?_, ?_, ?_, h.mark_eq, ?_, ?_, h.front, h.behind,
    fun p hp => h.settled_bind hplace key hvalue hp, ?_, σ.distinct_own_bind h.distinct _ _,
    τ.distinct_own_bind h.distinctOther _ _⟩
  · rw [extent_bind]
    exact h.helpers
  · rw [extent_bind]
    exact h.shared
  · rw [hsize, hsize']
    exact h.size_le
  · rw [hsize, hsize']
    exact h.place_eq
  · rw [hsize]
    exact h.floor_lt
  · rw [hsize']
    exact h.floorOther_lt
  · intro p hp hbehind
    rw [hsize] at hp
    exact h.inner_bind hplace key hvalue hp hbehind

end Bind

end Flattens

theorem simulation_flattens (ρ : Renaming) (floor : Nat) :
    Simulation ρ floor (Store.Flattens ρ floor) where
  mirrors h := h.mirrors
  mark h := h.mark
  record call other h := h.record call other
  child _ _ _ _ _ h hplace hbindings hreceiver :=
    ⟨h.place_eq 0, h.child hplace hbindings hreceiver⟩
  bind _ key _ _ h hplace hvalue := h.bind hplace key hvalue

end Store
end Stencil
