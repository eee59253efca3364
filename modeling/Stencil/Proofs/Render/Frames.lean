import Stencil.Proofs.Render.Effects
import Stencil.Proofs.Sandbox.Noninterference

/-!
# What a render leaves alone

A host that changes nothing leaves all writing to declarations, and a declaration writes to the
scope it stands in. So a render in a scope changes no other scope that was there before; and a
loop or an include, which renders in scopes that it opens itself, changes none at all.
-/

namespace Stencil

structure Host.ChangesNothing (host : Host) : Prop where
  binds : ∀ σ scope name args, (host.run σ scope name args).binds = []
  changes : ∀ σ scope name args, (host.run σ scope name args).changes = []

theorem Callable.apply_of_changesNothing {host : Host} (h : host.ChangesNothing) (scope : Nat)
    (name : String) (takesScope : Bool) (args : List Value) (σ : Store) :
    apply host scope (.host name takesScope) args σ =
      ((host.run σ (if takesScope then some scope else none) name args).result,
        σ.record ⟨.host name takesScope, args⟩) := by
  rw [apply, h.binds, h.changes]
  cases takesScope <;> rfl

/-! # Stores -/

namespace Store

/--
What may happen to a store while one scope, if any, is written to: scopes are opened, marks are
given out, and calls are recorded.
-/
structure Frames (written : Option Nat) (σ τ : Store) : Prop where
  data : τ.data = σ.data
  helpers : τ.helpers = σ.helpers
  shared : τ.shared = σ.shared
  size_le : σ.scopes.size ≤ τ.scopes.size
  mark_le : σ.nextMark ≤ τ.nextMark
  kept : ∀ place < σ.scopes.size, written ≠ some place → τ.scopes[place]? = σ.scopes[place]?

namespace Frames

variable {written : Option Nat} {σ τ υ : Store}

theorem refl (written : Option Nat) (σ : Store) : Frames written σ σ where
  data := rfl
  helpers := rfl
  shared := rfl
  size_le := Nat.le_refl _
  mark_le := Nat.le_refl _
  kept _ _ _ := rfl

theorem trans (h : Frames written σ τ) (h' : Frames written τ υ) : Frames written σ υ where
  data := h'.data.trans h.data
  helpers := h'.helpers.trans h.helpers
  shared := h'.shared.trans h.shared
  size_le := Nat.le_trans h.size_le h'.size_le
  mark_le := Nat.le_trans h.mark_le h'.mark_le
  kept place hplace hother := by
    rw [h'.kept place (Nat.lt_of_lt_of_le hplace h.size_le) hother, h.kept place hplace hother]

theorem goesOn (written : Option Nat) : Store.GoesOn (Frames written) where
  refl := .refl written
  trans := .trans

theorem weaken (h : Frames none σ τ) (written : Option Nat) : Frames written σ τ where
  data := h.data
  helpers := h.helpers
  shared := h.shared
  size_le := h.size_le
  mark_le := h.mark_le
  kept place hplace _ := h.kept place hplace (Option.some_ne_none place).symm

theorem enclosed (h : Frames none σ τ) {place : Nat} (hplace : σ.scopes.size ≤ place)
    (h' : Frames (some place) τ υ) : Frames none σ υ where
  data := h'.data.trans h.data
  helpers := h'.helpers.trans h.helpers
  shared := h'.shared.trans h.shared
  size_le := Nat.le_trans h.size_le h'.size_le
  mark_le := Nat.le_trans h.mark_le h'.mark_le
  kept old hold hother := by
    have hne : some place ≠ some old := by
      intro hsame
      cases hsame
      exact Nat.not_lt.mpr hplace hold
    rw [h'.kept old (Nat.lt_of_lt_of_le hold h.size_le) hne, h.kept old hold hother]

theorem child (σ : Store) (place : Nat) (bindings : Entries Value) (receiver : Option Value) :
    Frames none σ (σ.child place bindings receiver).2 where
  data := rfl
  helpers := rfl
  shared := rfl
  size_le := by
    rw [Store.child, Array.size_push]
    exact Nat.le_succ _
  mark_le := Nat.le_refl _
  kept old hold _ := by
    rw [Store.child, Array.getElem?_push, if_neg (Nat.ne_of_lt hold)]

theorem bind (σ : Store) (place : Nat) (key : Key) (value : Value) :
    Frames (some place) σ (σ.bind place key value) where
  data := rfl
  helpers := rfl
  shared := rfl
  size_le := Nat.le_of_eq Array.size_modify.symm
  mark_le := Nat.le_refl _
  kept old _ hother := by
    have hne : place ≠ old := fun hsame => hother (congrArg some hsame)
    rw [Store.bind, Array.getElem?_modify, if_neg hne]

theorem mark (σ : Store) : Frames none σ { σ with nextMark := σ.nextMark + 1 } :=
  { Frames.refl none σ with mark_le := Nat.le_succ _ }

theorem record (σ : Store) (call : Invocation) : Frames none σ (σ.record call) :=
  { Frames.refl none σ with }

/-! # What is still seen -/

section Seen

variable (h : Frames none σ τ)

include h

theorem own_eq {place : Nat} (hplace : place < σ.scopes.size) : τ.own place = σ.own place := by
  rw [own, own, h.kept place hplace (Option.some_ne_none place).symm]

theorem outer_eq {place : Nat} (hplace : place < σ.scopes.size) :
    τ.outer place = σ.outer place := by
  rw [outer, outer, h.kept place hplace (Option.some_ne_none place).symm]

theorem path_eq {place : Nat} (hplace : place < σ.scopes.size) : τ.path place = σ.path place := by
  rw [path, path, h.outer_eq hplace]

theorem receiver_eq {place : Nat} (hplace : place < σ.scopes.size) :
    τ.receiver place = σ.receiver place := by
  rw [receiver, receiver, h.kept place hplace (Option.some_ne_none place).symm]

theorem findSome?_own_eq (key : Key) {path : List Nat} (hpath : ∀ p ∈ path, p < σ.scopes.size) :
    (path.findSome? fun p => (τ.own p).get? key) =
      path.findSome? fun p => (σ.own p).get? key := by
  induction path with
  | nil => rfl
  | cons p rest ih =>
      rw [List.findSome?_cons, List.findSome?_cons, h.own_eq (hpath p List.mem_cons_self),
        ih fun q hq => hpath q (List.mem_cons_of_mem p hq)]

theorem foldr_own_eq {path : List Nat} (hpath : ∀ p ∈ path, p < σ.scopes.size)
    (first : Entries Value) :
    path.foldr (fun p all => Entries.merge all (τ.own p)) first =
      path.foldr (fun p all => Entries.merge all (σ.own p)) first := by
  induction path with
  | nil => rfl
  | cons p rest ih =>
      rw [List.foldr_cons, List.foldr_cons, h.own_eq (hpath p List.mem_cons_self),
        ih fun q hq => hpath q (List.mem_cons_of_mem p hq)]

variable {place : Nat} (hpath : ∀ p ∈ σ.path place, p < σ.scopes.size)

include hpath

theorem bindings_eq : τ.bindings place = σ.bindings place := by
  have hplace : place < σ.scopes.size := hpath place List.mem_cons_self
  rw [bindings, bindings, h.path_eq hplace, h.foldr_own_eq hpath, h.data]

theorem bound?_eq (key : Key) : τ.bound? place key = σ.bound? place key := by
  have hplace : place < σ.scopes.size := hpath place List.mem_cons_self
  rw [bound?, bound?, h.path_eq hplace, h.findSome?_own_eq key hpath, h.data]

theorem lookup_eq (name : String) : τ.lookup place name = σ.lookup place name := by
  rw [lookup, lookup, helper?, helper?, h.bound?_eq hpath, h.helpers]

end Seen

end Frames

/-! # Evaluations -/

def Counts (σ τ : Store) : Prop :=
  ∃ mark calls, σ.nextMark ≤ mark ∧ τ = { σ with nextMark := mark, calls := calls }

theorem Counts.refl (σ : Store) : σ.Counts σ :=
  ⟨σ.nextMark, σ.calls, Nat.le_refl _, rfl⟩

theorem Counts.trans {σ τ υ : Store} (h : σ.Counts τ) (h' : τ.Counts υ) : σ.Counts υ := by
  rcases h with ⟨mark, calls, hmark, rfl⟩
  rcases h' with ⟨mark', calls', hmark', rfl⟩
  exact ⟨mark', calls', Nat.le_trans hmark hmark', rfl⟩

theorem goesOn_counts : Store.GoesOn Counts where
  refl := .refl
  trans := .trans

theorem Counts.frames {σ τ : Store} (h : σ.Counts τ) : Frames none σ τ := by
  rcases h with ⟨mark, calls, hmark, rfl⟩
  exact { Frames.refl none σ with mark_le := hmark }

theorem Marks.counts {σ τ : Store} (h : σ.Marks τ) : σ.Counts τ := by
  rcases h with ⟨mark, hmark, rfl⟩
  exact ⟨mark, σ.calls, hmark, rfl⟩

end Store

namespace Evaluation

variable {α : Type}

def LeavesScopes (action : Evaluation α) : Prop :=
  ∀ σ : Store, σ.Counts (action σ).2

section Host

variable {host : Host} (hhost : host.ChangesNothing) (scope : Nat)

include hhost

theorem allows_counts : Allows Store.Counts (fun _ => True) host scope where
  toGoesOn := Store.goesOn_counts
  marks := Store.Marks.counts
  record σ call := ⟨σ.nextMark, call :: σ.calls, Nat.le_refl _, rfl⟩
  binds σ name args b hb := by
    rw [hhost.binds] at hb
    cases hb
  rewrites σ place name args τ _ := by
    rw [hhost.changes]
    exact Store.goesOn_counts.refl τ

theorem leavesScopes_evalSource (source : String) :
    LeavesScopes (evalSource host scope source) :=
  fun σ => (changes_evalSource (allows_counts hhost scope) source σ).1

theorem allows_frames : Allows (Store.Frames none) (fun _ => True) host scope where
  toGoesOn := Store.Frames.goesOn none
  marks h := h.counts.frames
  record := Store.Frames.record
  binds σ name args b hb := by
    rw [hhost.binds] at hb
    cases hb
  rewrites σ place name args τ _ := by
    rw [hhost.changes]
    exact .refl none τ

end Host

end Evaluation

/-! # Renders -/

namespace Rendering

variable {α β : Type} {written : Option Nat}

/-- Computations that write to one scope, if any, and to no other that is there. -/
def Writes (written : Option Nat) (action : Rendering α) : Prop :=
  ∀ s : RenderState, Store.Frames written s.store (action s).2.store

theorem Writes.idle {action : Rendering α} (h : ∀ s, (action s).2.store = s.store) :
    Writes written action :=
  Changes.idle (Store.Frames.goesOn written) h

theorem Writes.pure (a : α) : Writes written (Pure.pure a : Rendering α) :=
  Changes.pure (Store.Frames.goesOn written) a

theorem Writes.throw (trouble : Trouble) : Writes written (throw trouble : Rendering α) :=
  Changes.throw (Store.Frames.goesOn written) trouble

theorem Writes.note (event : Event) : Writes written (note event) :=
  Changes.note (Store.Frames.goesOn written) event

theorem Writes.weaken {action : Rendering α} (h : Writes none action) :
    Writes written action :=
  fun s => (h s).weaken written

theorem Writes.bind {action : Rendering α} (haction : Writes written action)
    {next : α → Rendering β} (hnext : ∀ a, Writes written (next a)) :
    Writes written (action >>= next) :=
  Changes.bind (Store.Frames.goesOn written) haction hnext

theorem Writes.inChild (place : Nat) (bindings : Entries Value) (receiver : Option Value)
    {next : Nat → Rendering α} (hnext : ∀ inner, Writes (some inner) (next inner)) :
    Writes none (onStore (fun σ => σ.child place bindings receiver) >>= next) := by
  intro s
  have hchild := Store.Frames.child s.store place bindings receiver
  have hinner := hnext s.store.scopes.size
    { s with store := (s.store.child place bindings receiver).2 }
  exact hchild.enclosed (Nat.le_refl _) hinner

theorem Writes.bindPart (scope : Nat) (value : Value) (name : String) (part : Part) :
    Writes (some scope) (bindPart scope value name part) := by
  intro s
  unfold Stencil.bindPart
  split
  · exact .bind _ _ _ _
  · exact .refl _ _

theorem Writes.bindParts (scope : Nat) (value : Value) (parts : List (String × Part)) :
    Writes (some scope) (bindParts scope value parts) := by
  induction parts with
  | nil => exact .pure ()
  | cons entry rest ih => exact (Writes.bindPart scope value _ _).bind fun _ => ih

theorem Writes.renderRounds {body : Nat → Rendering Text}
    (hbody : ∀ inner, Writes (some inner) (body inner)) (scope left : Nat) (loop : Loop) :
    Writes none (renderRounds body scope left loop) := by
  have hnext : ∀ loop, Writes none (nextRound loop) := fun loop => .idle fun _ => rfl
  induction left generalizing loop with
  | zero =>
      refine (hnext loop).bind fun found => ?_
      cases found with
      | none => exact .pure _
      | some found => exact .throw _
  | succ left ih =>
      refine (hnext loop).bind fun found => ?_
      cases found with
      | none => exact .pure _
      | some found =>
          refine .inChild _ _ _ fun inner => ?_
          refine (hbody inner).bind fun first => ?_
          exact (ih found.2).weaken.bind fun others => .pure _

section Expressions

variable {host : Host} (hhost : host.ChangesNothing)

include hhost

theorem Writes.valueOf (scope : Nat) (source : String) :
    Writes none (valueOf host scope source) :=
  Changes.valueOf (Evaluation.allows_frames hhost scope) source

theorem Writes.textOf (scope : Nat) (source : String) :
    Writes none (textOf host scope source) :=
  Changes.textOf (Evaluation.allows_frames hhost scope) source

end Expressions

section Nodes

variable {host : Host} {enter : Inclusion → Rendering Text}

mutual

theorem Writes.renderNode (hhost : host.ChangesNothing)
    (henter : ∀ inclusion, Writes none (enter inclusion)) (scope : Nat) :
    (node : Node) → Writes (some scope) (renderNode host enter scope node)
  | .text _ _ => by
      rw [Stencil.renderNode]
      exact .pure _
  | .interpolation _ source => by
      rw [Stencil.renderNode]
      exact (Writes.textOf hhost scope source).weaken.bind fun _ => .pure _
  | .shorthand _ path => by
      rw [Stencil.renderNode]
      exact (Writes.textOf hhost scope path).weaken.bind fun _ => .pure _
  | .declaration _ pattern source => by
      rw [Stencil.renderNode]
      refine (Writes.valueOf hhost scope source).weaken.bind fun value => ?_
      exact (Writes.bindParts scope value _).bind fun _ => .pure _
  | .conditional _ branches none => by
      rw [Stencil.renderNode]
      refine (Writes.renderBranches hhost henter scope branches).bind fun chosen => ?_
      cases chosen <;> exact .pure _
  | .conditional _ branches (some body) => by
      rw [Stencil.renderNode]
      refine (Writes.renderBranches hhost henter scope branches).bind fun chosen => ?_
      cases chosen with
      | some text => exact .pure _
      | none => exact Writes.renderAll hhost henter scope body
  | .loop _ item index source body => by
      rw [Stencil.renderNode]
      refine (Writes.valueOf hhost scope source).weaken.bind fun collection => ?_
      refine (Writes.idle fun _ => rfl).bind fun loop => ?_
      exact (Writes.renderRounds (fun inner => Writes.renderAll hhost henter inner body) scope _
        loop).weaken
  | .inclusion line path data => by
      rw [Stencil.renderNode]
      exact (henter _).weaken

theorem Writes.renderAll (hhost : host.ChangesNothing)
    (henter : ∀ inclusion, Writes none (enter inclusion)) (scope : Nat) :
    (nodes : List Node) → Writes (some scope) (renderAll host enter scope nodes)
  | [] => by
      rw [Stencil.renderAll]
      exact .pure _
  | node :: rest => by
      rw [Stencil.renderAll]
      refine (Writes.renderNode hhost henter scope node).bind fun first => ?_
      exact (Writes.renderAll hhost henter scope rest).bind fun others => .pure _

theorem Writes.renderBranches (hhost : host.ChangesNothing)
    (henter : ∀ inclusion, Writes none (enter inclusion)) (scope : Nat) :
    (branches : List (Branch Node)) →
      Writes (some scope) (renderBranches host enter scope branches)
  | [] => by
      rw [Stencil.renderBranches]
      exact .pure _
  | branch :: rest => by
      rw [Stencil.renderBranches]
      refine (Writes.valueOf hhost scope branch.condition).weaken.bind fun condition => ?_
      split
      · exact (Writes.renderAll hhost henter scope branch.body).bind fun _ => .pure _
      · exact Writes.renderBranches hhost henter scope rest

end

theorem Writes.renderLoop (hhost : host.ChangesNothing)
    (henter : ∀ inclusion, Writes none (enter inclusion)) (scope line : Nat)
    (item index source : String) (body : List Node) :
    Writes none (Stencil.renderNode host enter scope (.loop line item index source body)) := by
  rw [Stencil.renderNode]
  refine (Writes.valueOf hhost scope source).bind fun collection => ?_
  refine (Writes.idle fun _ => rfl).bind fun loop => ?_
  exact .renderRounds (fun inner => Writes.renderAll hhost henter inner body) scope _ loop

end Nodes

/-! # Includes -/

section Includes

variable {setup : RenderSetup} (hhost : setup.host.ChangesNothing)

include hhost

theorem Writes.includeTarget (site : Site) (inclusion : Inclusion) :
    Writes none (includeTarget setup site inclusion) :=
  Changes.includeTarget (Evaluation.allows_frames hhost inclusion.scope) site

omit hhost in
theorem Writes.includeNodes (site : Site) (inclusion : Inclusion) (path : Text) :
    Writes none (includeNodes setup site inclusion path) :=
  Changes.includeNodes (Store.Frames.goesOn none) setup site inclusion path

theorem Writes.renderInclude (left : Nat) (site : Site) (inclusion : Inclusion) :
    Writes none (renderInclude setup left site inclusion) := by
  induction left generalizing site inclusion with
  | zero =>
      refine (Writes.includeTarget hhost site inclusion).bind fun target => ?_
      cases target with
      | none => exact .pure _
      | some found => exact (Writes.note _).bind fun _ => .throw _
  | succ left ih =>
      refine (Writes.includeTarget hhost site inclusion).bind fun target => ?_
      cases target with
      | none => exact .pure _
      | some found =>
          rcases found with ⟨path, data⟩
          dsimp only
          split
          · exact (Writes.note _).bind fun _ => .throw _
          · refine (Writes.includeNodes site inclusion path).bind fun nodes => ?_
            cases nodes with
            | none => exact .pure _
            | some nodes =>
                refine (Writes.idle fun _ => rfl).bind fun _ => ?_
                refine .inChild _ _ _ fun scope => ?_
                exact .renderAll hhost (fun inner => ih (site.enter path) inner) scope nodes

end Includes

end Rendering
end Stencil
