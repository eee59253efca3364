import Stencil.Proofs.Render.Effects

/-!
# How long loops last

In each round a loop takes its list as it is then, so it goes on for as long as the list keeps
ahead of it. If no function of the host lengthens a list, a loop has no more rounds than there were
elements when it began.
-/

namespace Stencil

/-! # Stores -/

namespace Store

def NoLonger (σ τ : Store) : Prop :=
  ∀ value items, σ.items? value = some items →
    ∃ later, τ.items? value = some later ∧ later.length ≤ items.length

variable {σ τ : Store}

theorem items?_congr (h : τ.shared = σ.shared) (value : Value) :
    τ.items? value = σ.items? value := by
  unfold items?
  cases value with
  | shared place => rw [shape, shape, h]
  | _ => rfl

theorem noLonger_of_shared (h : τ.shared = σ.shared) : σ.NoLonger τ :=
  fun value items hitems => ⟨items, (items?_congr h value).trans hitems, Nat.le_refl _⟩

theorem goesOn_noLonger : GoesOn NoLonger where
  refl _ := noLonger_of_shared rfl
  trans h h' value items hitems := by
    rcases h value items hitems with ⟨later, hlater, hle⟩
    rcases h' value later hlater with ⟨last, hlast, hle'⟩
    exact ⟨last, hlast, Nat.le_trans hle' hle⟩

theorem shape_of_items? {value : Value} {items : List Value} (h : σ.items? value = some items) :
    σ.shape value = .list items := by
  unfold items? at h
  split at h
  next hshape =>
      cases h
      exact hshape
  · cases h

theorem length_elements {value : Value} {items : List Value} (h : σ.items? value = some items) :
    (σ.elements value).length = items.length := by
  rw [elements, shape_of_items? h, List.length_map]

end Store

def Host.LengthensNothing (host : Host) : Prop :=
  ∀ (σ : Store) (place : Option Nat) (name : String) (args : List Value),
    σ.NoLonger (σ.rewrite (host.run σ place name args).changes)

theorem Rendering.allows_noLonger {host : Host} (hhost : host.LengthensNothing) :
    Allows Store.NoLonger host where
  toGoesOn := Store.goesOn_noLonger
  evaluations scope := {
    toGoesOn := Store.goesOn_noLonger
    marks := by
      rintro σ _ ⟨mark, -, rfl⟩
      exact Store.noLonger_of_shared rfl
    record := fun _ _ => Store.noLonger_of_shared rfl
    binds := fun _ _ _ _ _ _ => Store.noLonger_of_shared rfl
    rewrites := by
      intro σ place name args τ hshared value items hitems
      rw [Store.items?_congr hshared] at hitems
      rcases hhost σ place name args value items hitems with ⟨later, hlater, hle⟩
      refine ⟨later, ?_, hle⟩
      rw [← hlater]
      exact Store.items?_congr (by rw [Store.rewrite, Store.rewrite, hshared]) value }
  child _ _ _ _ := Store.noLonger_of_shared rfl
  bind _ _ _ _ := Store.noLonger_of_shared rfl

/-! # Loops -/

namespace Loop

/-- Whether a loop has no more rounds to come than a number of them, unless its list gets longer. -/
inductive Within (σ : Store) (left : Nat) (loop : Loop) : Prop where
  | list {items : List Value} (hitems : σ.items? loop.collection = some items)
      (hle : items.length ≤ left + loop.turn)
  | fixed (hle : ∀ τ : Store, (τ.elements loop.collection).length ≤ left + loop.turn)

variable {σ τ : Store} {left : Nat} {loop later : Loop} {round : Round}

theorem Within.mono (h : loop.Within σ left) (hstores : σ.NoLonger τ) : loop.Within τ left := by
  cases h with
  | list hitems hle =>
      rcases hstores _ _ hitems with ⟨items, hitems, hfewer⟩
      exact .list hitems (Nat.le_trans hfewer hle)
  | fixed hle => exact .fixed hle

theorem Within.length_le (h : loop.Within σ left) :
    (σ.elements loop.collection).length ≤ left + loop.turn := by
  cases h with
  | list hitems hle => exact Nat.le_trans (Nat.le_of_eq (Store.length_elements hitems)) hle
  | fixed hle => exact hle σ

theorem within_begin (σ : Store) (item index : String) (collection : Value) (more : Nat) :
    (begin σ item index collection).Within σ ((begin σ item index collection).count + more) := by
  cases hshape : σ.shape collection with
  | list items =>
      have hitems : σ.items? collection = some items := by rw [Store.items?, hshape]
      have hover : (begin σ item index collection).collection = collection := by rw [begin, hshape]
      have hcount : (begin σ item index collection).count = items.length :=
        Store.length_elements hitems
      have hheld : σ.items? (begin σ item index collection).collection = some items := by
        rw [hover, hitems]
      refine .list hheld ?_
      rw [hcount]
      exact Nat.le_trans (Nat.le_add_right _ _) (Nat.le_add_right _ _)
  | map entries =>
      have hover : (begin σ item index collection).collection = .map entries := by
        rw [begin, hshape]
      have hcount : (begin σ item index collection).count = entries.length := by
        rw [begin, Store.elements, hshape, List.length_map]
      refine .fixed fun τ => ?_
      rw [hover, hcount, Store.elements, Store.shape, List.length_map]
      exact Nat.le_trans (Nat.le_add_right _ _) (Nat.le_add_right _ _)
  | plain =>
      have hover : (begin σ item index collection).collection = .undefined := by rw [begin, hshape]
      refine .fixed fun τ => ?_
      rw [hover]
      exact Nat.zero_le _

theorem elements_begin (item index : String) (collection : Value) (h : τ.shared = σ.shared) :
    τ.elements (begin σ item index collection).collection = σ.elements collection := by
  unfold begin Store.elements
  dsimp only
  cases hshape : σ.shape collection with
  | list items =>
      have hitems : τ.items? collection = some items := by
        rw [Store.items?_congr h, Store.items?, hshape]
      rw [Store.shape_of_items? hitems]
  | map entries => rfl
  | plain => rfl

theorem next?_eq_some (h : loop.next? σ = some (round, later)) :
    ∃ element, (σ.elements loop.collection)[loop.turn]? = some element ∧
      round = .ofElement loop.item loop.index loop.count (element, loop.turn) ∧
      later = { loop with turn := loop.turn + 1 } := by
  rcases Option.map_eq_some_iff.mp h with ⟨element, helement, hpair⟩
  cases hpair
  exact ⟨element, helement, rfl, rfl⟩

theorem Within.next (h : loop.Within σ left) (hnext : loop.next? σ = some (round, later)) :
    ∃ fewer, left = fewer + 1 ∧ later.Within σ fewer := by
  rcases next?_eq_some hnext with ⟨element, helement, -, rfl⟩
  have hturn : loop.turn < (σ.elements loop.collection).length :=
    (List.getElem?_eq_some_iff.mp helement).1
  have hlength := h.length_le
  cases left with
  | zero => omega
  | succ fewer =>
      refine ⟨fewer, rfl, ?_⟩
      have hshift : fewer + 1 + loop.turn = fewer + (loop.turn + 1) := by omega
      cases h with
      | list hitems hle => exact .list hitems (hshift ▸ hle)
      | fixed hle => exact .fixed fun τ => hshift ▸ hle τ

end Loop

/-! # Rounds, one by one -/

namespace Rendering

variable {body : Nat → Rendering Text} {scope left : Nat} {loop later : Loop} {round : Round}
  {s : RenderState}

def alone (body : Nat → Rendering Text) (scope : Nat) (round : Round) : Rendering Text := do
  let inner ← openRound scope round
  body inner

theorem renderRounds_done (h : loop.next? s.store = none) :
    renderRounds body scope left loop s = (.ok "", s) := by
  have hnext : nextRound loop s = (.ok none, s) := by rw [← h]; rfl
  cases left <;> rw [renderRounds, bind_def, hnext] <;> rfl

theorem renderRounds_stuck (h : loop.next? s.store = some (round, later)) :
    renderRounds body scope 0 loop s = (.error .unending, s) := by
  have hnext : nextRound loop s = (.ok (some (round, later)), s) := by rw [← h]; rfl
  rw [renderRounds, bind_def, hnext]
  rfl

theorem renderRounds_next (h : loop.next? s.store = some (round, later)) :
    renderRounds body scope (left + 1) loop s = (do
      let first ← alone body scope round
      let others ← renderRounds body scope left later
      return first ++ others : Rendering Text) s := by
  have hnext : nextRound loop s = (.ok (some (round, later)), s) := by rw [← h]; rfl
  rw [renderRounds, bind_def, hnext, alone, bind_assoc]

end Rendering

end Stencil
