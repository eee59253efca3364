import Stencil.Proofs.Render.Keeping
import Stencil.Render.Include

/-!
# What happens to a store

A relation that holds across evaluations holds across the parts of a render. If it also holds where
a scope is opened or a name is bound, it holds across a whole render.
-/

namespace Stencil

variable {R : Store → Store → Prop} {may : Failure → Prop} {α β : Type}

namespace Rendering

def Changes (R : Store → Store → Prop) (action : Rendering α) : Prop :=
  ∀ s : RenderState, R s.store (action s).2.store

section Steps

variable (h : Store.GoesOn R)

include h

theorem Changes.idle {action : Rendering α} (hidle : ∀ s, (action s).2.store = s.store) :
    Changes R action := by
  intro s
  rw [hidle s]
  exact h.refl s.store

theorem Changes.pure (a : α) : Changes R (Pure.pure a : Rendering α) :=
  .idle h fun _ => rfl

theorem Changes.throw (trouble : Trouble) : Changes R (throw trouble : Rendering α) :=
  .idle h fun _ => rfl

theorem Changes.note (event : Event) : Changes R (note event) :=
  .idle h fun _ => rfl

theorem Changes.read : Changes R (get : Rendering RenderState) :=
  .idle h fun _ => rfl

theorem Changes.fetch (source : ViewSource) (path : Text) : Changes R (fetch source path) :=
  .idle h (store_fetch source path)

theorem Changes.bind {action : Rendering α} (haction : Changes R action)
    {next : α → Rendering β} (hnext : ∀ a, Changes R (next a)) : Changes R (action >>= next) := by
  intro s
  have hfirst := haction s
  rw [bind_def]
  generalize action s = run at hfirst
  rcases run with ⟨result, after⟩
  cases result with
  | ok a => exact h.trans hfirst (hnext a after)
  | error trouble => exact hfirst

theorem Changes.recover (source : String) {action : Evaluation α}
    (haction : action.Changes R may) (instead : α) :
    Changes R (recover source action instead) := by
  have hrun : Changes R (onStore action) := fun s => (haction s.store).1
  refine hrun.bind h fun result => ?_
  cases result with
  | ok a => exact .pure h a
  | error failure =>
      dsimp only
      cases failure.told with
      | ok text => exact (Changes.note h _).bind h fun _ => .pure h instead
      | error again => exact .throw h _

theorem Changes.includeNodes (setup : RenderSetup) (site : Site) (inclusion : Inclusion)
    (path : Text) : Changes R (includeNodes setup site inclusion path) := by
  refine (Changes.note h _).bind h fun _ => ?_
  have hattempt : Changes R (attempt (Rendering.fetch setup.source path)) :=
    Changes.fetch h setup.source path
  refine hattempt.bind h fun result => ?_
  split
  · exact .pure h _
  · split
    · exact (Changes.note h _).bind h fun _ => .pure h _
    · exact .throw h _
  · exact .throw h _

end Steps

variable {host : Host} {scope : Nat}

theorem Changes.valueOf (h : Evaluation.Allows R may host scope) (source : String) :
    Changes R (valueOf host scope source) :=
  .recover h.toGoesOn source (Evaluation.changes_evalSource h source) _

theorem Changes.textOf (h : Evaluation.Allows R may host scope) (source : String) :
    Changes R (textOf host scope source) :=
  .recover h.toGoesOn source (Evaluation.changes_textOfSource h source) _

theorem Changes.includeTarget {setup : RenderSetup} {inclusion : Inclusion}
    (h : Evaluation.Allows R may setup.host inclusion.scope) (site : Site) :
    Changes R (includeTarget setup site inclusion) := by
  have hdata : Changes R (includeData setup.host inclusion) := by
    unfold Stencil.includeData
    split
    · exact .pure h.toGoesOn _
    next source _ =>
        refine (Changes.valueOf h source).bind h.toGoesOn fun value => ?_
        refine (Changes.read h.toGoesOn).bind h.toGoesOn fun s => ?_
        split
        · exact .pure h.toGoesOn _
        · exact (Changes.note h.toGoesOn _).bind h.toGoesOn fun _ => .pure h.toGoesOn _
  refine hdata.bind h.toGoesOn fun data => ?_
  split
  · exact .pure h.toGoesOn _
  · exact (Changes.note h.toGoesOn _).bind h.toGoesOn fun _ => .pure h.toGoesOn _

/-! # Whole renders -/

structure Allows (R : Store → Store → Prop) (host : Host) : Prop extends Store.GoesOn R where
  evaluations : ∀ scope, Evaluation.Allows R (fun _ => True) host scope
  child : ∀ σ place bindings receiver, R σ (σ.child place bindings receiver).2
  bind : ∀ σ place key value, R σ (σ.bind place key value)

section Nodes

variable {enter : Inclusion → Rendering Text}

theorem Changes.bindParts (h : Allows R host) (scope : Nat) (value : Value)
    (parts : List (String × Part)) : Changes R (bindParts scope value parts) := by
  induction parts with
  | nil => exact .pure h.toGoesOn ()
  | cons entry rest ih =>
      have hfirst : Changes R (bindPart scope value entry.1 entry.2) := by
        intro s
        unfold bindPart
        split
        · exact h.bind _ _ _ _
        · exact h.refl _
      exact hfirst.bind h.toGoesOn fun _ => ih

theorem Changes.openRound (h : Allows R host) (scope : Nat) (round : Round) :
    Changes R (openRound scope round) :=
  fun s => h.child s.store scope round.bindings (some round.receiver)

theorem Changes.renderRounds (h : Allows R host) {body : Nat → Rendering Text}
    (hbody : ∀ inner, Changes R (body inner)) (scope left : Nat) (loop : Loop) :
    Changes R (renderRounds body scope left loop) := by
  induction left generalizing loop with
  | zero =>
      refine Changes.bind h.toGoesOn (.idle h.toGoesOn fun _ => rfl) fun found => ?_
      cases found with
      | none => exact .pure h.toGoesOn _
      | some found => exact .throw h.toGoesOn _
  | succ left ih =>
      refine Changes.bind h.toGoesOn (.idle h.toGoesOn fun _ => rfl) fun found => ?_
      cases found with
      | none => exact .pure h.toGoesOn _
      | some found =>
          refine (Changes.openRound h scope found.1).bind h.toGoesOn fun inner => ?_
          refine (hbody inner).bind h.toGoesOn fun first => ?_
          exact (ih found.2).bind h.toGoesOn fun others => .pure h.toGoesOn _

mutual

theorem Changes.renderNode (h : Allows R host) (henter : ∀ inclusion, Changes R (enter inclusion)) :
    (node : Node) → (scope : Nat) → Changes R (renderNode host enter scope node)
  | .text _ _, scope => by
      rw [Stencil.renderNode]
      exact .pure h.toGoesOn _
  | .interpolation _ source, scope => by
      rw [Stencil.renderNode]
      exact (Changes.textOf (h.evaluations scope) source).bind h.toGoesOn fun _ =>
        .pure h.toGoesOn _
  | .shorthand _ path, scope => by
      rw [Stencil.renderNode]
      exact (Changes.textOf (h.evaluations scope) path).bind h.toGoesOn fun _ =>
        .pure h.toGoesOn _
  | .declaration _ pattern source, scope => by
      rw [Stencil.renderNode]
      refine (Changes.valueOf (h.evaluations scope) source).bind h.toGoesOn fun value => ?_
      exact (Changes.bindParts h scope value _).bind h.toGoesOn fun _ => .pure h.toGoesOn _
  | .conditional _ branches none, scope => by
      rw [Stencil.renderNode]
      refine (Changes.renderBranches h henter branches scope).bind h.toGoesOn fun chosen => ?_
      cases chosen <;> exact .pure h.toGoesOn _
  | .conditional _ branches (some body), scope => by
      rw [Stencil.renderNode]
      refine (Changes.renderBranches h henter branches scope).bind h.toGoesOn fun chosen => ?_
      cases chosen with
      | some text => exact .pure h.toGoesOn _
      | none => exact Changes.renderAll h henter body scope
  | .loop _ item index source body, scope => by
      rw [Stencil.renderNode]
      refine (Changes.valueOf (h.evaluations scope) source).bind h.toGoesOn fun collection => ?_
      refine Changes.bind h.toGoesOn (.idle h.toGoesOn fun _ => rfl) fun loop => ?_
      exact .renderRounds h (fun inner => Changes.renderAll h henter body inner) scope _ loop
  | .inclusion line path data, scope => by
      rw [Stencil.renderNode]
      exact henter _

theorem Changes.renderAll (h : Allows R host) (henter : ∀ inclusion, Changes R (enter inclusion)) :
    (nodes : List Node) → (scope : Nat) → Changes R (renderAll host enter scope nodes)
  | [], scope => by
      rw [Stencil.renderAll]
      exact .pure h.toGoesOn _
  | node :: rest, scope => by
      rw [Stencil.renderAll]
      refine (Changes.renderNode h henter node scope).bind h.toGoesOn fun first => ?_
      exact (Changes.renderAll h henter rest scope).bind h.toGoesOn fun _ => .pure h.toGoesOn _

theorem Changes.renderBranches (h : Allows R host)
    (henter : ∀ inclusion, Changes R (enter inclusion)) :
    (branches : List (Branch Node)) → (scope : Nat) →
      Changes R (renderBranches host enter scope branches)
  | [], scope => by
      rw [Stencil.renderBranches]
      exact .pure h.toGoesOn _
  | branch :: rest, scope => by
      rw [Stencil.renderBranches]
      refine (Changes.valueOf (h.evaluations scope) branch.condition).bind h.toGoesOn
        fun condition => ?_
      split
      · exact (Changes.renderAll h henter branch.body scope).bind h.toGoesOn fun _ =>
          .pure h.toGoesOn _
      · exact Changes.renderBranches h henter rest scope

end

end Nodes

theorem Changes.renderInclude {setup : RenderSetup} (h : Allows R setup.host) (left : Nat)
    (site : Site) (inclusion : Inclusion) :
    Changes R (renderInclude setup left site inclusion) := by
  have htarget : ∀ site inclusion, Changes R (Stencil.includeTarget setup site inclusion) :=
    fun site inclusion => .includeTarget (h.evaluations inclusion.scope) site
  have hcycle : ∀ site inclusion path,
      Changes R (rejectCycle site inclusion path : Rendering Text) :=
    fun site inclusion path => (Changes.note h.toGoesOn _).bind h.toGoesOn fun _ =>
      .throw h.toGoesOn _
  induction left generalizing site inclusion with
  | zero =>
      refine (htarget site inclusion).bind h.toGoesOn fun target => ?_
      cases target with
      | none => exact .pure h.toGoesOn _
      | some found => exact hcycle site inclusion found.1
  | succ left ih =>
      refine (htarget site inclusion).bind h.toGoesOn fun target => ?_
      cases target with
      | none => exact .pure h.toGoesOn _
      | some found =>
          rcases found with ⟨path, data⟩
          dsimp only
          split
          · exact hcycle site inclusion path
          · refine (Changes.includeNodes h.toGoesOn setup site inclusion path).bind h.toGoesOn
              fun nodes => ?_
            cases nodes with
            | none => exact .pure h.toGoesOn _
            | some nodes =>
                refine Changes.bind h.toGoesOn (.idle h.toGoesOn fun _ => rfl) fun _ => ?_
                refine Changes.bind h.toGoesOn (fun s => h.child _ _ _ _) fun scope => ?_
                exact .renderAll h (fun inner => ih (site.enter path) inner) nodes scope

end Rendering
end Stencil
