import Stencil.Proofs.Render.Course
import Stencil.Proofs.Render.Effects
import Stencil.Proofs.Value.Bindings

/-!
# Scopes that a render works in

A render opens scopes and binds names in them, whatever the functions of its host do, but a scope
never comes to lie inside other ones than at first. So wherever a render may come to, the scopes
that it works in are there, and each lies inside scopes that were there before it.
-/

namespace Stencil

/-! # Stores -/

namespace Store

structure Grows (σ τ : Store) : Prop where
  size_le : σ.scopes.size ≤ τ.scopes.size
  outer_eq : ∀ place < σ.scopes.size, τ.outer place = σ.outer place

theorem goesOn_grows : GoesOn Grows where
  refl _ := ⟨Nat.le_refl _, fun _ _ => rfl⟩
  trans h h' := by
    refine ⟨Nat.le_trans h.size_le h'.size_le, fun place hplace => ?_⟩
    rw [h'.outer_eq place (Nat.lt_of_lt_of_le hplace h.size_le), h.outer_eq place hplace]

variable {σ τ : Store} {scope : Nat}

theorem grows_bind (σ : Store) (place : Nat) (key : Key) (value : Value) :
    σ.Grows (σ.bind place key value) where
  size_le := Nat.le_of_eq Array.size_modify.symm
  outer_eq _ _ := outer_bind σ key value

theorem grows_child (σ : Store) (place : Nat) (bindings : Entries Value)
    (receiver : Option Value) : σ.Grows (σ.child place bindings receiver).2 where
  size_le := by
    rw [child, Array.size_push]
    exact Nat.le_succ _
  outer_eq p hp := by
    rw [outer_child, if_neg (Nat.ne_of_lt hp)]

theorem allows_grows (host : Host) (scope : Nat) :
    Evaluation.Allows Grows (fun _ => True) host scope where
  toGoesOn := goesOn_grows
  marks h := by
    rcases h with ⟨mark, -, rfl⟩
    exact ⟨Nat.le_refl _, fun _ _ => rfl⟩
  record _ _ := ⟨Nat.le_refl _, fun _ _ => rfl⟩
  binds _ _ _ b _ σ := σ.grows_bind scope b.1 b.2
  rewrites _ _ _ _ _ _ := ⟨Nat.le_refl _, fun _ _ => rfl⟩

/-- A scope that is there, inside scopes that were there before it. -/
structure HasScope (σ : Store) (scope : Nat) : Prop where
  there : scope < σ.scopes.size
  outer_lt : ∀ place ∈ σ.outer scope, place < scope

theorem HasScope.mono (h : σ.HasScope scope) (hgrows : σ.Grows τ) : τ.HasScope scope where
  there := Nat.lt_of_lt_of_le h.there hgrows.size_le
  outer_lt := by
    rw [hgrows.outer_eq scope h.there]
    exact h.outer_lt

theorem HasScope.not_mem_outer (h : σ.HasScope scope) : scope ∉ σ.outer scope :=
  fun hmem => Nat.lt_irrefl scope (h.outer_lt scope hmem)

theorem HasScope.child (h : σ.HasScope scope) (bindings : Entries Value)
    (receiver : Option Value) :
    (σ.child scope bindings receiver).2.HasScope (σ.child scope bindings receiver).1 where
  there := by
    rw [Store.child, Array.size_push]
    exact Nat.lt_succ_self _
  outer_lt place hplace := by
    have hinner : (σ.child scope bindings receiver).2.outer
        (σ.child scope bindings receiver).1 = σ.path scope := by
      rw [outer_child]
      exact if_pos rfl
    rw [hinner] at hplace
    rcases List.mem_cons.mp hplace with rfl | hout
    · exact h.there
    · exact Nat.lt_trans (h.outer_lt place hout) h.there

theorem hasScope_root (h : σ.scopes = #[⟨[], [], none⟩]) : σ.HasScope 0 where
  there := by
    rw [h]
    exact Nat.zero_lt_one
  outer_lt place hplace := by
    rw [outer, h] at hplace
    cases hplace

end Store

/-! # The parts of a render -/

namespace Rendering

open Store

theorem allows_grows (host : Host) : Allows Grows host where
  toGoesOn := goesOn_grows
  evaluations := Store.allows_grows host
  child := grows_child
  bind := grows_bind

theorem grows_chosenBody (host : Host) (scope : Nat) (otherwise : Option (List Node))
    (branches : List (Branch Node)) :
    Changes Grows (chosenBody host scope otherwise branches) := by
  induction branches with
  | nil => exact .pure goesOn_grows _
  | cons branch rest ih =>
      refine (Changes.valueOf (Store.allows_grows host scope) branch.condition).bind goesOn_grows
        fun condition => ?_
      split
      · exact .pure goesOn_grows _
      · exact ih

theorem grows_beginLoop (host : Host) (scope : Nat) (item index source : String) :
    Changes Grows (beginLoop host scope item index source) :=
  (Changes.valueOf (Store.allows_grows host scope) source).bind goesOn_grows fun _ =>
    .idle goesOn_grows fun _ => rfl

theorem grows_enterInclude (setup : RenderSetup) (site : Site) (inclusion : Inclusion) :
    Changes Grows (enterInclude setup site inclusion) := by
  refine (Changes.includeTarget (Store.allows_grows _ _) site).bind goesOn_grows fun target => ?_
  cases target with
  | none => exact .pure goesOn_grows _
  | some found =>
      dsimp only
      split
      · exact (Changes.note goesOn_grows _).bind goesOn_grows fun _ => .throw goesOn_grows _
      · refine (Changes.includeNodes goesOn_grows setup site inclusion found.1).bind goesOn_grows
          fun nodes => ?_
        cases nodes with
        | none => exact .pure goesOn_grows _
        | some nodes =>
            refine Changes.bind goesOn_grows (.idle goesOn_grows fun _ => rfl) fun _ => ?_
            refine Changes.bind goesOn_grows (fun s => grows_child _ _ _ _) fun _ => ?_
            exact .pure goesOn_grows _

theorem hasScope_enterInclude {setup : RenderSetup} {site : Site} {inclusion : Inclusion}
    {s after : RenderState} {entered : Entered} (hscope : s.store.HasScope inclusion.scope)
    (h : enterInclude setup site inclusion s = (.ok (some entered), after)) :
    after.store.HasScope entered.scope := by
  have htarget := Changes.includeTarget (Store.allows_grows setup.host inclusion.scope) site s
  rw [enterInclude, bind_def] at h
  generalize includeTarget setup site inclusion s = run at h htarget
  rcases run with ⟨result, s₁⟩
  cases result with
  | error trouble => cases h
  | ok target =>
      cases target with
      | none => cases h
      | some found =>
          dsimp only at h
          split at h
          · cases h
          · have hnodes := Changes.includeNodes goesOn_grows setup site inclusion found.1 s₁
            rw [bind_def] at h
            generalize includeNodes setup site inclusion found.1 s₁ = run at h hnodes
            rcases run with ⟨result, s₂⟩
            cases result with
            | error trouble => cases h
            | ok nodes =>
                cases nodes with
                | none => cases h
                | some nodes =>
                    cases h
                    exact ((hscope.mono htarget).mono hnodes).child found.2 none

end Rendering

/-! # Courses -/

def Task.HasScope (σ : Store) : Task → Prop
  | .nodes _ scope _ => σ.HasScope scope
  | .rounds _ scope _ _ => σ.HasScope scope
  | .leave _ => True

theorem Task.HasScope.mono {σ τ : Store} {task : Task} (h : task.HasScope σ)
    (hgrows : σ.Grows τ) : task.HasScope τ := by
  cases task with
  | nodes view scope nodes => exact Store.HasScope.mono h hgrows
  | rounds view scope body loop => exact Store.HasScope.mono h hgrows
  | leave path => trivial

namespace Course

open Rendering Store

def IsPlaced (c : Course) : Prop :=
  ∀ task ∈ c.tasks, task.HasScope c.state.store

variable {setup : RenderSetup} {c next last : Course}

theorem IsPlaced.push (h : c.IsPlaced) {task : Task} (htask : task.HasScope c.state.store) :
    (c.push task).IsPlaced :=
  List.forall_mem_cons.mpr ⟨htask, h⟩

theorem IsPlaced.perform {α : Type} (h : c.IsPlaced) {action : Rendering α}
    (haction : c.state.store.Grows (action c.state).2.store) {go : α → Course → Course}
    (hgo : ∀ a (later : Course), (action c.state).1 = .ok a → later.IsPlaced →
      later.state = (action c.state).2 → (go a later).IsPlaced) :
    (c.perform action go).IsPlaced := by
  have hlater : ∀ task ∈ c.tasks, task.HasScope (action c.state).2.store :=
    fun task htask => (h task htask).mono haction
  unfold Course.perform
  generalize action c.state = run at haction hgo hlater ⊢
  rcases run with ⟨result, after⟩
  cases result with
  | ok a => exact hgo a { c with state := after } rfl hlater rfl
  | error trouble => exact hlater

theorem IsPlaced.visit (h : c.IsPlaced) (view : Option Text) {scope : Nat}
    (hscope : c.state.store.HasScope scope) (node : Node) :
    (visit setup view scope node c).IsPlaced := by
  have hnone : ∀ inclusion : Inclusion,
      Changes Grows ((fun _ => return "" : Inclusion → Rendering Text) inclusion) :=
    fun _ => .pure goesOn_grows _
  have hleaf : (c.perform (renderNode setup.host (fun _ => return "") scope node)
      write).IsPlaced :=
    h.perform (Changes.renderNode (Rendering.allows_grows setup.host) hnone node scope c.state)
      fun _ _ _ hlater _ => hlater
  cases node with
  | conditional line branches otherwise =>
      rw [Course.visit]
      have hgrows := grows_chosenBody setup.host scope otherwise branches c.state
      refine h.perform hgrows fun body later _ hlater hstate => hlater.push ?_
      exact hscope.mono (hstate ▸ hgrows)
  | loop line item index source body =>
      rw [Course.visit]
      have hgrows := grows_beginLoop setup.host scope item index source c.state
      refine h.perform hgrows fun loop later _ hlater hstate => hlater.push ?_
      exact hscope.mono (hstate ▸ hgrows)
  | inclusion line path data =>
      rw [Course.visit]
      have hgrows := grows_enterInclude setup ⟨view, c.stack, c.depth⟩ ⟨line, path, data, scope⟩
      refine h.perform (hgrows c.state) fun entered later hentered hlater hstate => ?_
      cases entered with
      | none => exact hlater
      | some entered =>
          have hinner : later.state.store.HasScope entered.scope :=
            hasScope_enterInclude (s := c.state) hscope (Prod.ext hentered hstate.symm)
          exact List.forall_mem_cons.mpr ⟨hinner, List.forall_mem_cons.mpr ⟨trivial, hlater⟩⟩
  | text line text => exact hleaf
  | interpolation line source => exact hleaf
  | shorthand line path => exact hleaf
  | declaration line pattern source => exact hleaf

theorem IsPlaced.step (h : c.IsPlaced) (hnext : c.next? setup = some next) : next.IsPlaced := by
  unfold IsPlaced at h
  cases steps_of_next? hnext with
  | ends hdone =>
      rw [hdone] at h
      exact (List.forall_mem_cons.mp h).2
  | @visits view scope node others rest hnode _ =>
      rw [hnode] at h
      rcases List.forall_mem_cons.mp h with ⟨hscope, hrest⟩
      have hothers : IsPlaced { c with tasks := .nodes view scope others :: rest } :=
        List.forall_mem_cons.mpr ⟨hscope, hrest⟩
      exact hothers.visit view hscope node
  | @begins view scope body loop later round rest htasks _ _ =>
      rw [htasks] at h
      rcases List.forall_mem_cons.mp h with ⟨hscope, hrest⟩
      have hothers : IsPlaced { c with tasks := .rounds view scope body later :: rest } :=
        List.forall_mem_cons.mpr ⟨hscope, hrest⟩
      refine hothers.perform (grows_child _ _ _ _) fun inner later hinner hlater hstate => ?_
      cases hinner
      refine hlater.push ?_
      rw [hstate]
      exact Store.HasScope.child hscope _ _

theorem IsPlaced.leads (h : c.IsPlaced) (hlast : Leads setup c last) : last.IsPlaced := by
  induction hlast with
  | refl => exact h
  | step hstep _ ih => exact ih (h.step hstep)

theorem isPlaced_start (view : Option Text) (nodes : List Node) {s : RenderState}
    (h : s.store.HasScope 0) : (start view nodes s).IsPlaced := by
  intro task htask
  cases List.mem_singleton.mp htask
  exact h

end Course
end Stencil
